import Mathlib.Data.List.Basic

/-!
# Checked steps

Arithmetic on registers of a fixed width, indexing and division are defined for some operands only,
and a console that meets other operands has crashed. The definitions of this library are total: a
counter is a natural number and an index is folded into its memory. What has to hold for them to be
what a machine with registers does is therefore said beside them.

A `Check` is one step that can fail, with its operands. Each part of the console has, for each of
its operations, the list of the checks that the operation makes, at the states in which it makes
them and in the order of the operation; the list follows the branches that are taken. Steps whose
operands are all constants are left out, and so is arithmetic that is meant to wrap around.
-/

namespace Famicom

/-- The widths of unsigned registers. -/
inductive Width where
  | w8
  | w16
  | w32
  | w64
  deriving DecidableEq, Repr

/-- The first number that a register of this width cannot hold. -/
def Width.limit : Width → Nat
  | w8 => 0x100
  | w16 => 0x10000
  | w32 => 0x100000000
  | w64 => 0x10000000000000000

/-- A step that can fail, with its operands. -/
inductive Check where
  /-- The result of an addition, a multiplication or a shift fits into its register. -/
  | fits (width : Width) (value : Nat)
  /-- A result fits into a signed register of sixteen bits. -/
  | fitsSigned (value : Int)
  /-- A difference of unsigned numbers is not negative. -/
  | subtract (value taken : Nat)
  /-- A division or a remainder has a divisor. -/
  | divide (divisor : Nat)
  /-- A register of so many bits is shifted by fewer than these. -/
  | shift (bits amount : Nat)
  /-- A memory of this size has this place. -/
  | index (size place : Nat)
  /-- A memory of this size has this range. -/
  | slice (size start stop : Nat)
  /-- A branch that is marked as impossible is not the one taken. -/
  | impossible (taken : Bool)
  deriving DecidableEq, Repr

namespace Check

/-- The step succeeds. -/
def Passes : Check → Prop
  | fits width value => value < width.limit
  | fitsSigned value => -0x8000 ≤ value ∧ value < 0x8000
  | subtract value taken => taken ≤ value
  | divide divisor => divisor ≠ 0
  | shift bits amount => amount < bits
  | index size place => place < size
  | slice size start stop => start ≤ stop ∧ stop ≤ size
  | impossible taken => taken = false

instance : DecidablePred Passes := fun k ↦ by
  cases k <;> unfold Passes <;> infer_instance

/-- Every one of these steps succeeds. -/
def AllPass (checks : List Check) : Prop := ∀ k ∈ checks, k.Passes

instance (checks : List Check) : Decidable (AllPass checks) :=
  inferInstanceAs (Decidable (∀ k ∈ checks, k.Passes))

@[simp] theorem allPass_nil : AllPass [] := fun _ h ↦ absurd h List.not_mem_nil

@[simp] theorem allPass_cons {k : Check} {checks : List Check} :
    AllPass (k :: checks) ↔ k.Passes ∧ AllPass checks := List.forall_mem_cons

theorem allPass_singleton {k : Check} : AllPass [k] ↔ k.Passes := List.forall_mem_singleton

@[simp] theorem allPass_append {checks more : List Check} :
    AllPass (checks ++ more) ↔ AllPass checks ∧ AllPass more := List.forall_mem_append

theorem AllPass.append {checks more : List Check} (h : AllPass checks) (hmore : AllPass more) :
    AllPass (checks ++ more) := allPass_append.mpr ⟨h, hmore⟩

theorem allPass_flatMap {α : Type} {l : List α} {checks : α → List Check} :
    AllPass (l.flatMap checks) ↔ ∀ x ∈ l, AllPass (checks x) := by
  simp only [AllPass, List.mem_flatMap]
  constructor
  · intro h x hx k hk
    exact h k ⟨x, hx, hk⟩
  · rintro h k ⟨x, hx, hk⟩
    exact h x hx k hk

/-- A branch makes the checks of the side that is taken. -/
theorem allPass_ite {p : Prop} [Decidable p] {yes no : List Check} :
    AllPass (if p then yes else no) ↔ (p → AllPass yes) ∧ (¬p → AllPass no) := by
  by_cases h : p <;> simp [h]

theorem allPass_if {p : Prop} [Decidable p] {yes : List Check} (h : p → AllPass yes) :
    AllPass (if p then yes else []) := allPass_ite.mpr ⟨h, fun _ ↦ allPass_nil⟩

theorem allPass_unless {p : Prop} [Decidable p] {no : List Check} (h : ¬p → AllPass no) :
    AllPass (if p then [] else no) := allPass_ite.mpr ⟨fun _ ↦ allPass_nil, h⟩

@[simp] theorem passes_fits (width : Width) (value : Nat) :
    (fits width value).Passes ↔ value < width.limit := Iff.rfl

@[simp] theorem passes_fitsSigned (value : Int) :
    (fitsSigned value).Passes ↔ -0x8000 ≤ value ∧ value < 0x8000 := Iff.rfl

@[simp] theorem passes_subtract (value taken : Nat) :
    (subtract value taken).Passes ↔ taken ≤ value := Iff.rfl

@[simp] theorem passes_divide (divisor : Nat) : (divide divisor).Passes ↔ divisor ≠ 0 := Iff.rfl

@[simp] theorem passes_shift (bits amount : Nat) : (shift bits amount).Passes ↔ amount < bits :=
  Iff.rfl

@[simp] theorem passes_index (size place : Nat) : (index size place).Passes ↔ place < size :=
  Iff.rfl

@[simp] theorem passes_slice (size start stop : Nat) :
    (slice size start stop).Passes ↔ start ≤ stop ∧ stop ≤ size := Iff.rfl

@[simp] theorem passes_impossible (taken : Bool) : (impossible taken).Passes ↔ taken = false :=
  Iff.rfl

end Check

end Famicom
