/-!
This module contains the marking of text. What marks look like is for whoever shows the text to say.
-/

namespace NamedLambda.Text

inductive Colour where
  | red
  | magenta
  deriving DecidableEq, Repr, Inhabited

/--
How text is marked: in bold, or in bold and a colour.
-/
structure Paint where
  bold : String → String
  strong : Colour → String → String

namespace Paint

/--
Colours are off: nothing is marked.
-/
structure IsPlain (paint : Paint) : Prop where
  bold_eq : ∀ text, paint.bold text = text
  strong_eq : ∀ colour text, paint.strong colour text = text

def plain : Paint where
  bold text := text
  strong _ text := text

end Paint

end NamedLambda.Text
