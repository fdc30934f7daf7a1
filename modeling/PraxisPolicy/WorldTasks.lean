import Mathlib.Logic.Basic

/-!
# Tasks over an outside world

A task runs against a world it may change and returns or unwinds with a panic.  A statement about
every world is one about every behaviour of the callee.
-/

namespace PraxisPolicy.WorldTasks

def Task (W α : Type) : Type := W → Except String α × W

namespace Task

variable {W α β : Type}

instance : Monad (Task W) where
  pure a := fun w => (.ok a, w)
  bind x f := fun w =>
    match x w with
    | (.ok a, w') => f a w'
    | (.error p, w') => (.error p, w')

variable {x : Task W α} {w : W} {a : α} {f : α → Task W β} {P : α → Prop} {Q : β → Prop}

theorem bind_of_eq {w₁ : W} (h : x w = (.ok a, w₁)) (f : α → Task W β) :
    (x >>= f) w = f a w₁ := by
  simp only [bind, h]

theorem bind_of_error {w₁ : W} {p : String} (h : x w = (.error p, w₁)) (f : α → Task W β) :
    (x >>= f) w = (.error p, w₁) := by
  simp only [bind, h]

theorem bind_return (x : Task W α) : (x >>= fun a => pure a) = x := by
  funext w
  rcases h : x w with ⟨p | a, w₁⟩
  · exact bind_of_error h _
  · exact bind_of_eq h _

theorem exists_of_bind_eq_ok {w' : W} {b : β} (h : (x >>= f) w = (.ok b, w')) :
    ∃ a w₁, x w = (.ok a, w₁) ∧ f a w₁ = (.ok b, w') := by
  simp only [bind] at h
  split at h
  · exact ⟨_, _, ‹_›, h⟩
  · cases h

def call (f : W → α × W) : Task W α := fun w => (.ok (f w).1, (f w).2)

/-- Its panic becomes a value. -/
def contain (x : Task W α) : Task W (Except String α) := fun w => (.ok (x w).1, (x w).2)

section Loops

variable {ι σ δ : Type} {body : ι → σ → Task W (σ × Option δ)}

/-- It may be left early with a value. -/
def forEach (body : ι → σ → Task W (σ × Option δ)) : List ι → σ → Task W (σ × Option δ)
  | [], s => pure (s, none)
  | i :: is, s => do
    match ← body i s with
    | (s, none) => forEach body is s
    | (s, some left) => return (s, some left)

theorem forEach_singleton (i : ι) (s : σ) : forEach body [i] s = body i s := by
  funext w
  rw [forEach]
  rcases h : body i s w with ⟨p | ⟨s', _ | left⟩, w'⟩
  · exact bind_of_error h _
  · exact bind_of_eq h _
  · exact bind_of_eq h _

theorem forEach_congr {other : ι → σ → Task W (σ × Option δ)} {is : List ι}
    (h : ∀ i ∈ is, body i = other i) (s : σ) : forEach body is s = forEach other is s := by
  induction is generalizing s with
  | nil => rfl
  | cons i is ih =>
    obtain ⟨hi, his⟩ := List.forall_mem_cons.1 h
    simp only [forEach, hi, ih his]

end Loops

/-- Whatever the world, a value the task returns satisfies `P`. -/
def Ensures (x : Task W α) (P : α → Prop) : Prop :=
  ∀ w a w', x w = (.ok a, w') → P a

theorem Ensures.mono {Q : α → Prop} (h : x.Ensures P) (hPQ : ∀ a, P a → Q a) : x.Ensures Q :=
  fun w a w' hx => hPQ a (h w a w' hx)

theorem ensures_pure (h : P a) : (pure a : Task W α).Ensures P := by
  intro w b w' hx
  cases hx
  exact h

theorem Ensures.bind (hx : x.Ensures P) (hf : ∀ a, P a → (f a).Ensures Q) :
    (x >>= f).Ensures Q := by
  intro w b w' hb
  obtain ⟨a, w₁, hxw, hfw⟩ := exists_of_bind_eq_ok hb
  exact hf a (hx w a w₁ hxw) w₁ b w' hfw

theorem ensures_bind (hf : ∀ a, (f a).Ensures Q) : (x >>= f).Ensures Q :=
  Ensures.bind (P := fun _ => True) (fun _ _ _ _ => trivial) fun a _ => hf a

theorem ensures_forEach {ι σ δ : Type} {body : ι → σ → Task W (σ × Option δ)}
    {P : σ × Option δ → Prop} (hbody : ∀ i s, P (s, none) → (body i s).Ensures P) (is : List ι)
    {s : σ} (hs : P (s, none)) : (forEach body is s).Ensures P := by
  induction is generalizing s with
  | nil => exact ensures_pure hs
  | cons i is ih =>
    refine (hbody i s hs).bind fun r hr => ?_
    obtain ⟨s', _ | left⟩ := r
    · exact ih hr
    · exact ensures_pure hr

theorem Ensures.contain (h : x.Ensures P) :
    x.contain.Ensures fun r => ∀ a, r = .ok a → P a := by
  intro w r w' hr a ha
  have hfst : (x w).1 = r := Except.ok.inj (congrArg Prod.fst hr)
  refine h w a (x w).2 ?_
  rw [← ha, ← hfst]

theorem Ensures.and {Q : α → Prop} (hP : x.Ensures P) (hQ : x.Ensures Q) :
    x.Ensures fun a => P a ∧ Q a :=
  fun w a w' hx => ⟨hP w a w' hx, hQ w a w' hx⟩

/-- Whatever the world, the task returns. -/
def Yields (x : Task W α) (P : α → Prop) : Prop :=
  ∀ w, ∃ a w', x w = (.ok a, w') ∧ P a

theorem yields_pure (h : P a) : (pure a : Task W α).Yields P :=
  fun w => ⟨a, w, rfl, h⟩

theorem Yields.bind (hx : x.Yields P) (hf : ∀ a, P a → (f a).Yields Q) : (x >>= f).Yields Q := by
  intro w
  obtain ⟨a, w₁, hxw, ha⟩ := hx w
  obtain ⟨b, w₂, hfw, hb⟩ := hf a ha w₁
  exact ⟨b, w₂, (bind_of_eq hxw f).trans hfw, hb⟩

theorem yields_call (f : W → α × W) : (call f).Yields fun _ => True :=
  fun w => ⟨(f w).1, (f w).2, rfl, trivial⟩

theorem yields_contain (x : Task W α) : x.contain.Yields fun _ => True :=
  fun w => ⟨(x w).1, (x w).2, rfl, trivial⟩

/-- The rules that `Ensures` and `Yields` share. -/
structure Logic (W : Type) where
  Holds {α : Type} : Task W α → (α → Prop) → Prop
  pure {α : Type} {a : α} {P : α → Prop} : P a → Holds (Pure.pure a) P
  bind {α β : Type} {x : Task W α} {f : α → Task W β} {P : α → Prop} {Q : β → Prop} :
    Holds x P → (∀ a, P a → Holds (f a) Q) → Holds (x >>= f) Q
  call {α : Type} (f : W → α × W) : Holds (Task.call f) fun _ => True
  contain {α : Type} (x : Task W α) : Holds x.contain fun _ => True

def ensures : Logic W :=
  ⟨Ensures, ensures_pure, Ensures.bind, fun _ _ _ _ _ => trivial, fun _ _ _ _ _ => trivial⟩

def yields : Logic W := ⟨Yields, yields_pure, Yields.bind, yields_call, yields_contain⟩

section Outside

variable {V : Type} (outside : W → V)

/-- The task ends so that `P` holds and leaves the part of the world seen from outside as it was. -/
def Keeps (x : Task W α) (P : Except String α → Prop) : Prop :=
  ∀ w, P (x w).1 ∧ outside (x w).2 = outside w

variable {outside}

variable {x : Task W α} {P : Except String α → Prop} {R : α → β → Prop} {y : Task W β}

theorem Keeps.mono {Q : Except String α → Prop} (h : x.Keeps outside P) (hPQ : ∀ r, P r → Q r) :
    x.Keeps outside Q :=
  fun w => ⟨hPQ _ (h w).1, (h w).2⟩

theorem keeps_pure {a : α} (h : P (.ok a)) :
    (pure a : Task W α).Keeps outside P :=
  fun _ => ⟨h, rfl⟩

theorem Keeps.bind {f : α → Task W β} {Q : Except String β → Prop} (hx : x.Keeps outside P)
    (hf : ∀ a, P (.ok a) → (f a).Keeps outside Q) (herror : ∀ p, P (.error p) → Q (.error p)) :
    (x >>= f).Keeps outside Q := by
  intro w
  obtain ⟨hP, hw⟩ := hx w
  rcases hxw : x w with ⟨p | a, w₁⟩ <;> rw [hxw] at hP hw
  · rw [bind_of_error hxw]
    exact ⟨herror p hP, hw⟩
  · rw [bind_of_eq hxw]
    obtain ⟨hQ, hw₁⟩ := hf a hP w₁
    exact ⟨hQ, hw₁.trans hw⟩

theorem Keeps.contain (h : x.Keeps outside P) :
    x.contain.Keeps outside fun r => ∃ r', r = .ok r' ∧ P r' :=
  fun w => ⟨⟨(x w).1, rfl, (h w).1⟩, (h w).2⟩

theorem keeps_call {f : W → α × W} (h : ∀ w, P (.ok (f w).1) ∧ outside (f w).2 = outside w) :
    (call f).Keeps outside P :=
  h

/-- Both return related values or unwind with the same panic. -/
def Related (R : α → β → Prop) : Except String α → Except String β → Prop
  | .ok a, .ok b => R a b
  | .error p, .error q => p = q
  | _, _ => False

variable (outside) in
/-- Started in worlds that look the same, they end alike in worlds that look the same. -/
def Matches (x : Task W α) (y : Task W β) (R : α → β → Prop) : Prop :=
  ∀ w w', outside w = outside w' →
    Related R (x w).1 (y w').1 ∧ outside (x w).2 = outside (y w').2

theorem matches_pure {a : α} {b : β} (h : R a b) :
    Matches outside (pure a : Task W α) (pure b) R :=
  fun _ _ hw => ⟨h, hw⟩

theorem matches_self (x : Task W α) : Matches id x x Eq := by
  intro w w' hw
  obtain rfl : w = w' := hw
  refine ⟨?_, rfl⟩
  cases (x w).1 <;> rfl

theorem Matches.bind {γ δ : Type} {f : α → Task W γ} {g : β → Task W δ} {Q : γ → δ → Prop}
    (h : Matches outside x y R) (hfg : ∀ a b, R a b → Matches outside (f a) (g b) Q) :
    Matches outside (x >>= f) (y >>= g) Q := by
  intro w w' hw
  obtain ⟨hrelated, hout⟩ := h w w' hw
  rcases hx : x w with ⟨p | a, w₁⟩ <;> rcases hy : y w' with ⟨q | b, w₁'⟩ <;>
    rw [hx, hy] at hrelated hout
  · rw [bind_of_error hx, bind_of_error hy]
    exact ⟨hrelated, hout⟩
  · exact hrelated.elim
  · exact hrelated.elim
  · rw [bind_of_eq hx, bind_of_eq hy]
    exact hfg a b hrelated w₁ w₁' hout

theorem matches_forEach {ι σ τ δ ε : Type} {f : ι → σ → Task W (σ × Option δ)}
    {g : ι → τ → Task W (τ × Option ε)} {R : σ × Option δ → τ × Option ε → Prop}
    (hends : ∀ a b, R a b → (a.2.isSome ↔ b.2.isSome))
    (hbody : ∀ i s t, R (s, none) (t, none) → Matches outside (f i s) (g i t) R) (is : List ι)
    {s : σ} {t : τ} (h : R (s, none) (t, none)) :
    Matches outside (forEach f is s) (forEach g is t) R := by
  induction is generalizing s t with
  | nil => exact matches_pure h
  | cons i is ih =>
    refine (hbody i s t h).bind fun a b hab => ?_
    have hboth := hends a b hab
    obtain ⟨s', _ | left⟩ := a <;> obtain ⟨t', _ | left'⟩ := b
    · exact ih hab
    · simp at hboth
    · simp at hboth
    · exact matches_pure hab

theorem Matches.ensures_left {P : α → Prop} (h : Matches outside x y R) (hP : x.Ensures P) :
    Matches outside x y fun a b => R a b ∧ P a := by
  intro w w' hw
  obtain ⟨hrelated, hout⟩ := h w w' hw
  refine ⟨?_, hout⟩
  rcases hx : x w with ⟨p | a, w₁⟩ <;> cases hy : (y w').1 <;> rw [hx, hy] at hrelated
  · exact hrelated
  · exact hrelated
  · exact hrelated
  · exact ⟨hrelated, hP w a w₁ hx⟩

theorem Keeps.matches {Q : Except String β → Prop} (hx : x.Keeps outside P) (hy : y.Keeps outside Q)
    (h : ∀ r r', P r → Q r' → Related R r r') :
    Matches outside x y R :=
  fun w w' hw => ⟨h _ _ (hx w).1 (hy w').1, ((hx w).2.trans hw).trans (hy w').2.symm⟩

end Outside

end Task

end PraxisPolicy.WorldTasks
