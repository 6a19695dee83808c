import NamedLambda.Proofs.Nameless

/-!
This module contains the laws by which shifting and instantiation of nameless terms are exchanged. The
last one is the substitution lemma.
-/

namespace NamedLambda.Nameless

theorem shift_shift_merge (term : Nameless) (amount more : Nat) {depth inner : Nat}
    (hle : depth ≤ inner) (hinner : inner ≤ depth + amount)
    : (term.shift amount depth).shift more inner = term.shift (amount + more) depth := by
  induction term generalizing depth inner with
  | bound index =>
    simp only [shift]
    split
    · simp only [shift]
      rw [if_pos (by omega)]
    · simp only [shift]
      rw [if_neg (by omega), Nat.add_assoc]
  | free name => rfl
  | const name => rfl
  | lam body ih =>
    simp only [shift, lam.injEq]
    apply ih
    · omega
    · omega
  | app function argument ihf iha => simp only [shift, ihf hle hinner, iha hle hinner]

theorem shift_shift_comm (term : Nameless) (amount more : Nat) {depth outer : Nat}
    (hle : outer ≤ depth)
    : (term.shift amount depth).shift more outer =
      (term.shift more outer).shift amount (depth + more) := by
  induction term generalizing depth outer with
  | bound index =>
    by_cases houter : index < outer
    · have hdepth : index < depth := by omega
      have hmore : index < depth + more := by omega
      simp [shift, houter, hdepth, hmore]
    · by_cases hdepth : index < depth
      · simp [shift, houter, hdepth]
      · have hamount : ¬index + amount < outer := by omega
        simp only [shift, houter, hdepth, hamount, Nat.add_lt_add_iff_right, if_false, bound.injEq]
        omega
  | free name => rfl
  | const name => rfl
  | lam body ih =>
    simp only [shift, lam.injEq]
    rw [Nat.add_right_comm]
    apply ih
    omega
  | app function argument ihf iha => simp only [shift, ihf hle, iha hle]

theorem shift_instantiate (term value : Nameless) (amount depth rest : Nat)
    : (term.instantiate value depth).shift amount (depth + rest) =
      (term.shift amount (depth + rest + 1)).instantiate (value.shift amount rest) depth := by
  induction term generalizing depth with
  | bound index =>
    rcases Nat.lt_trichotomy index depth with hlt | heq | hgt
    · have h : index < depth + rest := by omega
      have h' : index < depth + rest + 1 := by omega
      simp [instantiate, shift, hlt, h, h']
    · subst heq
      have h : index < index + rest + 1 := by omega
      simp only [instantiate, shift, Nat.lt_irrefl, if_false, h, if_true]
      rw [shift_shift_comm value amount index (Nat.zero_le rest), Nat.add_comm rest index]
    · have hlt : ¬index < depth := by omega
      have hne : index ≠ depth := by omega
      by_cases hrest : index < depth + rest + 1
      · have h : index - 1 < depth + rest := by omega
        simp [instantiate, shift, hlt, hne, hrest, h]
      · have h : ¬index - 1 < depth + rest := by omega
        have hlt' : ¬index + amount < depth := by omega
        have hne' : index + amount ≠ depth := by omega
        simp only [instantiate, shift, hlt, hne, hrest, h, hlt', hne', if_false, bound.injEq]
        omega
  | free name => rfl
  | const name => rfl
  | lam body ih =>
    have ih := ih (depth + 1)
    simp only [instantiate, shift, lam.injEq]
    rw [Nat.add_right_comm depth 1 rest] at ih
    exact ih
  | app function argument ihf iha => simp only [instantiate, shift, ihf, iha]

theorem instantiate_shift_cancel (term value : Nameless) (amount : Nat) {depth place : Nat}
    (hle : depth ≤ place) (hplace : place ≤ depth + amount)
    : (term.shift (amount + 1) depth).instantiate value place = term.shift amount depth := by
  induction term generalizing depth place with
  | bound index =>
    by_cases h : index < depth
    · have hplace' : index < place := by omega
      simp [instantiate, shift, h, hplace']
    · have hlt : ¬index + (amount + 1) < place := by omega
      have hne : index + (amount + 1) ≠ place := by omega
      simp only [instantiate, shift, h, hlt, hne, if_false, bound.injEq]
      omega
  | free name => rfl
  | const name => rfl
  | lam body ih =>
    simp only [instantiate, shift, lam.injEq]
    apply ih
    · omega
    · omega
  | app function argument ihf iha => simp only [instantiate, shift, ihf hle hplace, iha hle hplace]

theorem instantiate_shift_comm (term value : Nameless) (amount : Nat) {depth place : Nat}
    (hle : depth ≤ place)
    : (term.shift amount depth).instantiate value (place + amount) =
      (term.instantiate value place).shift amount depth := by
  induction term generalizing depth place with
  | bound index =>
    rcases Nat.lt_trichotomy index place with hlt | heq | hgt
    · by_cases h : index < depth
      · have hplace : index < place + amount := by omega
        simp [instantiate, shift, hlt, h, hplace]
      · simp [instantiate, shift, hlt, h]
    · subst heq
      have h : ¬index < depth := by omega
      simp only [instantiate, shift, h, Nat.lt_irrefl, if_false, if_true]
      rw [shift_shift_merge value index amount (Nat.zero_le depth) (by omega)]
    · have h : ¬index < depth := by omega
      have hlt : ¬index < place := by omega
      have hne : index ≠ place := by omega
      have h' : ¬index - 1 < depth := by omega
      simp only [instantiate, shift, h, hlt, hne, h', Nat.add_lt_add_iff_right,
        Nat.add_right_cancel_iff, if_false, bound.injEq]
      omega
  | free name => rfl
  | const name => rfl
  | lam body ih =>
    simp only [instantiate, shift, lam.injEq]
    rw [Nat.add_right_comm]
    apply ih
    omega
  | app function argument ihf iha => simp only [instantiate, shift, ihf hle, iha hle]

theorem instantiate_instantiate (term value outer : Nameless) (depth rest : Nat)
    : (term.instantiate value depth).instantiate outer (depth + rest) =
      (term.instantiate outer (depth + rest + 1)).instantiate (value.instantiate outer rest) depth := by
  induction term generalizing depth with
  | bound index =>
    rcases Nat.lt_trichotomy index depth with hlt | heq | hgt
    · have h : index < depth + rest := by omega
      have h' : index < depth + rest + 1 := by omega
      simp [instantiate, hlt, h, h']
    · subst heq
      have h : index < index + rest + 1 := by omega
      simp only [instantiate, Nat.lt_irrefl, if_false, if_true, h]
      rw [Nat.add_comm index rest, instantiate_shift_comm value outer index (Nat.zero_le rest)]
    · have hlt : ¬index < depth := by omega
      have hne : index ≠ depth := by omega
      rcases Nat.lt_trichotomy index (depth + rest + 1) with hlt' | heq' | hgt'
      · have h : index - 1 < depth + rest := by omega
        simp [instantiate, hlt, hne, hlt', h]
      · subst heq'
        simp only [instantiate, hlt, hne, Nat.lt_irrefl, if_false, if_true, Nat.add_sub_cancel]
        rw [instantiate_shift_cancel outer _ (depth + rest) (Nat.zero_le depth) (by omega)]
      · have h : ¬index - 1 < depth + rest := by omega
        have h' : index - 1 ≠ depth + rest := by omega
        have hlt'' : ¬index < depth + rest + 1 := by omega
        have hne'' : index ≠ depth + rest + 1 := by omega
        have hlast : ¬index - 1 < depth := by omega
        have hlast' : index - 1 ≠ depth := by omega
        simp [instantiate, hlt, hne, h, h', hlt'', hne'', hlast, hlast']
  | free name => rfl
  | const name => rfl
  | lam body ih =>
    have ih := ih (depth + 1)
    simp only [instantiate, lam.injEq]
    rw [Nat.add_right_comm depth 1 rest] at ih
    exact ih
  | app function argument ihf iha => simp only [instantiate, ihf, iha]

end NamedLambda.Nameless
