/-
  Proofs/Payload/Refusal.lean --- why payloads have no expectation.

  Payloads without an expectation are refused as such, or because an operation on their numbers
  is.  That a payload is of another type than a container asks for is never the reason
  (`expectation_typeless`): only a container says so.
-/
import Recourse.Payload.Expectation
import Recourse.Proofs.Effect

set_option autoImplicit false
set_option linter.unusedSectionVars false

namespace Recourse

variable {K α β : Type}

/-! ## Complaints about types -/

/-- The fault says that a payload is of another type than a container asks for. -/
def Fault.isMismatch : Fault K → Bool
  | .schemaMismatch _ _ => true
  | _ => false

/-- A computation that does not complain about the type of a payload for a container. -/
def Typeless (r : Except (Fault K) α) : Prop :=
  Settles r (fun _ => True) fun f => f.isMismatch = false

namespace Typeless

theorem ok (a : α) : Typeless (.ok a : Except (Fault K) α) := trivial

theorem error {f : Fault K} (h : f.isMismatch = false) :
    Typeless (.error f : Except (Fault K) α) := h

theorem bind {r : Except (Fault K) α} {f : α → Except (Fault K) β} (h : Typeless r)
    (hf : ∀ a, Typeless (f a)) : Typeless (r >>= f) :=
  Settles.bind (h.mono (fun a _ => hf a) fun _ h => h)

theorem mapM {f : α → Except (Fault K) β} (xs : List α) (h : ∀ a, Typeless (f a)) :
    Typeless (xs.mapM f) :=
  (Settles.mapM (R := fun _ _ => True) xs fun a _ => h a).mono (fun _ _ => trivial) fun _ h => h

end Typeless

namespace Value

variable [Scalar K]

/-! ## Arrays -/

mutual
theorem cells_typeless (v : Value K) : Typeless (cells v) := by
  cases v with
  | list items | tuple items =>
    rw [cells]
    exact cellsOfItems_typeless items
  | named t fields =>
    rw [cells]
    exact cellsOfFields_typeless fields
  | _ => rw [cells] <;> first | exact .ok _ | simp

theorem cellsOfItems_typeless (items : List (Value K)) : Typeless (cellsOfItems items) := by
  cases items with
  | nil =>
    rw [cellsOfItems]
    exact .ok _
  | cons v rest =>
    rw [cellsOfItems]
    refine .bind (cells_typeless v) fun ⟨shape, entries⟩ =>
      .bind (cellsOfItems_typeless rest) fun ⟨outer, others⟩ => ?_
    dsimp only
    split
    · exact .ok _
    · split
      · exact .ok _
      · exact .error rfl
    · exact .error rfl

theorem cellsOfFields_typeless (fields : List (String × Value K)) :
    Typeless (cellsOfFields fields) := by
  match fields with
  | [] =>
    rw [cellsOfFields]
    exact .ok _
  | (_, v) :: rest =>
    rw [cellsOfFields]
    refine .bind (cells_typeless v) fun ⟨shape, entries⟩ =>
      .bind (cellsOfFields_typeless rest) fun ⟨outer, others⟩ => ?_
    dsimp only
    split
    · exact .ok _
    · split
      · exact .ok _
      · exact .error rfl
    · exact .error rfl
end

theorem cellNumber_typeless (v : Value K) : Typeless (cellNumber v) := by
  cases v with
  | null | flag | whole | real => exact .ok _
  | text s =>
    rw [cellNumber, readNumber]
    split
    · exact .ok _
    · exact .error rfl
  | _ => exact .error rfl

theorem expectArrays_typeless (shape : List Nat) (isNumeric : Bool) (vs : List (Value K))
    (weights : List K) (t : String) : Typeless (expectArrays shape isNumeric vs weights t) := by
  unfold expectArrays
  refine .bind (.mapM vs cells_typeless) fun arrays => ?_
  split
  · show Typeless (.error (.notExpectable t))
    exact .error rfl
  dsimp only
  split
  · exact .ok _
  · refine .bind (.mapM _ fun cs => .mapM cs cellNumber_typeless) fun numbers => ?_
    split <;> exact .ok _

/-! ## Totals and rains -/

theorem add_typeless (v w : Value K) : Typeless (add v w) := by
  unfold add
  split
  · split
    · exact .ok _
    · split
      · exact .ok _
      · exact .ok _
      · exact .error rfl
  · exact .error rfl

theorem total_typeless (fields : List (String × Value K)) : Typeless (total fields) := by
  unfold total
  generalize (.whole 0 : Value K) = acc
  induction fields generalizing acc with
  | nil => exact .ok _
  | cons f fields ih =>
    rw [List.foldlM_cons]
    exact .bind (add_typeless acc f.2) ih

theorem largestRain_typeless (others : List (Value K)) (best : Value K) :
    Typeless (largestRain best others) := by
  induction others generalizing best with
  | nil => exact .ok _
  | cons v others ih =>
    rw [largestRain]
    refine .bind ?_ fun r => .bind ?_ fun c => ih _
    · unfold rain
      split
      · exact .ok _
      · exact .error rfl
    · unfold exceeds
      split
      · exact .ok _
      · dsimp only
        split
        · exact .ok _
        · exact .error rfl

/-! ## Expectations -/

/-- A check in front of a sum. -/
theorem typeless_check {c : Bool} {t : String} {r : Except (Fault K) α} (h : Typeless r) :
    Typeless (if c = true then r else .error (.notExpectable t)) := by
  split
  · exact h
  · exact .error rfl

mutual
/-- An expectation is refused for other reasons than types that a container asks for. -/
theorem expect_typeless (weights : List K) (first : Value K) (others : List (Value K)) :
    Typeless (expect weights first others) := by
  cases first with
  | null | flag | text | «sealed» =>
    rw [expect]
    exact .error rfl
  | weather rain =>
    rw [expect]
    exact .bind (largestRain_typeless others rain) fun _ => .ok _
  | whole | real =>
    rw [expect]
    split
    · exact .ok _
    · exact .error rfl
  | array | wholeArray | textArray =>
    rw [expect]
    exact expectArrays_typeless _ _ _ _ _
  | list xs | tuple xs =>
    rw [expect]
    exact typeless_check (.bind (expectItems_typeless weights xs _) fun _ => .ok _)
  | mapping fields | named t fields | record t fields =>
    rw [expect]
    exact typeless_check (.bind (expectFields_typeless weights fields _) fun _ => .ok _)
  | totalled t fields =>
    rw [expect]
    exact typeless_check (.bind (expectFields_typeless weights fields _) fun fs =>
      .bind (total_typeless fs) fun _ => .ok _)

theorem expectItems_typeless (weights : List K) (first : List (Value K))
    (others : List (List (Value K))) : Typeless (expectItems weights first others) := by
  match first with
  | [] =>
    rw [expectItems]
    exact .ok _
  | v :: rest =>
    rw [expectItems]
    exact .bind (expect_typeless weights v _) fun _ =>
      .bind (expectItems_typeless weights rest _) fun _ => .ok _

theorem expectFields_typeless (weights : List K) (first : List (String × Value K))
    (others : List (List (String × Value K))) : Typeless (expectFields weights first others) := by
  match first with
  | [] =>
    rw [expectFields]
    exact .ok _
  | (key, v) :: rest =>
    rw [expectFields]
    exact .bind (expect_typeless weights v _) fun _ =>
      .bind (expectFields_typeless weights rest _) fun _ => .ok _
end

theorem expectation_typeless (vs : List (Value K)) (weights : List K) :
    Typeless (expectation vs weights) := by
  cases vs with
  | nil => exact .error rfl
  | cons first others => exact expect_typeless weights first others

end Value

end Recourse
