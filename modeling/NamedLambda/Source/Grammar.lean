import NamedLambda.Book
import NamedLambda.Source.Token

/-!
This module contains the grammar as machines that read one token at a time:

```
book       ::= definition*
definition ::= name "=" term
term       ::= name | lambda (name | "*") term | "(" term term+ ")"
statement  ::= definition | term
```

A machine refuses a token as soon as no text of the grammar goes on with it, and says what it expected.
-/

namespace NamedLambda.Source

inductive Expected where
  | definitionName
  | equals
  | binder
  | term
  | rightParen
  | endOfInput
  deriving DecidableEq, Repr, Inhabited

def Expected.text : Expected → String
  | definitionName => "definition name"
  | equals => "'='"
  | binder => "binder name or '*'"
  | term => "term"
  | rightParen => "')'"
  | endOfInput => "end of input"

inductive Frame where
  | body (binder : Option String)
  | function
  | argument (function : Term)
  deriving DecidableEq, Repr, Inhabited

/--
The states of the machine for terms. In `more` an application is complete, and a further argument or
the closing parenthesis follows.
-/
inductive TermState where
  | term (stack : List Frame)
  | binder (stack : List Frame)
  | more (application : Term) (stack : List Frame)
  | done (result : Term)
  deriving DecidableEq, Repr, Inhabited

namespace TermState

def start : TermState :=
  term []

def supply (result : Term) : List Frame → TermState
  | [] => done result
  | .body name :: stack => supply (.lam name result) stack
  | .function :: stack => term (.argument result :: stack)
  | .argument function :: stack => more (.app function result) stack

def begin (stack : List Frame) (token : Token) : Except Expected TermState :=
  match token.kind with
  | .name => .ok (supply (.var token.text) stack)
  | .lambda => .ok (binder stack)
  | .leftParen => .ok (term (.function :: stack))
  | _ => .error .term

def next : TermState → Token → Except Expected TermState
  | term stack, token => begin stack token
  | binder stack, token =>
    match token.kind with
    | .erased => .ok (term (.body none :: stack))
    | .name => .ok (term (.body (some token.text) :: stack))
    | _ => .error .binder
  | more application stack, token =>
    match token.kind with
    | .rightParen => .ok (supply application stack)
    | _ => begin (.argument application :: stack) token
  | done _, _ => .error .endOfInput

def finish : TermState → Except Expected Term
  | term _ => .error .term
  | binder _ => .error .binder
  | more _ _ => .error .rightParen
  | done result => .ok result

end TermState

inductive BookState where
  | ready (definitions : List Definition)
  | named (definitions : List Definition) (name : String)
  | body (definitions : List Definition) (name : String) (state : TermState)
  deriving DecidableEq, Repr, Inhabited

namespace BookState

def start : BookState :=
  ready []

def ofBody (definitions : List Definition) (name : String) : TermState → BookState
  | .done result => ready (definitions ++ [{ name, body := result }])
  | state => body definitions name state

def next : BookState → Token → Except Expected BookState
  | ready definitions, token =>
    match token.kind with
    | .name => .ok (named definitions token.text)
    | _ => .error .definitionName
  | named definitions name, token =>
    match token.kind with
    | .equals => .ok (body definitions name .start)
    | _ => .error .equals
  | body definitions name state, token => (state.next token).map (ofBody definitions name)

def finish : BookState → Except Expected (List Definition)
  | ready definitions => .ok definitions
  | named _ _ => .error .equals
  | body definitions name state =>
    state.finish.map (fun result => definitions ++ [{ name, body := result }])

end BookState

inductive Statement where
  | definition (definition : Definition)
  | term (term : Term)
  deriving DecidableEq, Repr, Inhabited

/--
The states of the machine for statements. After a name alone it is open whether that name is defined
or is the whole term.
-/
inductive StatementState where
  | start
  | named (name : String)
  | body (name : String) (state : TermState)
  | term (state : TermState)
  deriving DecidableEq, Repr, Inhabited

namespace StatementState

def next : StatementState → Token → Except Expected StatementState
  | start, token =>
    match token.kind with
    | .name => .ok (named token.text)
    | _ => (TermState.start.next token).map term
  | named name, token =>
    match token.kind with
    | .equals => .ok (body name .start)
    | _ => .error .endOfInput
  | body name state, token => (state.next token).map (body name)
  | term state, token => (state.next token).map term

def finish : StatementState → Except Expected Statement
  | start => .error .term
  | named name => .ok (.term (.var name))
  | body name state => state.finish.map (fun result => .definition { name, body := result })
  | term state => state.finish.map .term

end StatementState

structure Mismatch where
  expected : Expected
  found : Option Token
  deriving DecidableEq, Repr, Inhabited

def readTokens {σ α : Type} (next : σ → Token → Except Expected σ) (finish : σ → Except Expected α) :
    σ → List Token → Except Mismatch α
  | state, [] =>
    match finish state with
    | .ok result => .ok result
    | .error expected => .error { expected, found := none }
  | state, token :: rest =>
    match next state token with
    | .ok state => readTokens next finish state rest
    | .error expected => .error { expected, found := some token }

def readTerm : List Token → Except Mismatch Term :=
  readTokens TermState.next TermState.finish .start

def readDefinitions : List Token → Except Mismatch (List Definition) :=
  readTokens BookState.next BookState.finish .start

def readStatement : List Token → Except Mismatch Statement :=
  readTokens StatementState.next StatementState.finish .start

end NamedLambda.Source
