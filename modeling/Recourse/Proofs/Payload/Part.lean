/-
  Proofs/Payload/Part.lean --- what is found inside a payload.

  A path leads from a payload to a part of it, step by step through sequences, mappings and
  records.  Every part has a form, which is what remains of it when its numbers are left out,
  and its numbers.  Two payloads hold the same data when the same is found in both wherever a
  path leads (`Same`); the order in which a mapping has its keys plays no role then.  What is
  said of a payload below is said of every part of it, and so of its members.
-/
import Recourse.Payload.Expectation
import Mathlib.Data.List.Forall2

set_option autoImplicit false

namespace Recourse

namespace Table

variable {κ α : Type}

theorem keys_eq_of_forall₂ {β : Type} {t : Table κ α} {t' : Table κ β}
    (h : List.Forall₂ (fun e e' => e'.1 = e.1) t t') : t'.map (·.1) = t.map (·.1) := by
  induction h with
  | nil => rfl
  | cons he _ ih => rw [List.map_cons, List.map_cons, he, ih]

variable [BEq κ] [LawfulBEq κ]

theorem mem_of_find? {t : Table κ α} {key : κ} {a : α} (h : t.find? key = some a) :
    (key, a) ∈ t := by
  induction t with
  | nil => cases h
  | cons e rest ih =>
    obtain ⟨k, b⟩ := e
    unfold find? at h
    split at h
    · rename_i hkey
      obtain rfl := eq_of_beq hkey
      obtain rfl := Option.some.inj h
      exact List.mem_cons_self
    · exact List.mem_cons_of_mem _ (ih h)

theorem find?_isSome_iff (t : Table κ α) (key : κ) :
    (t.find? key).isSome = true ↔ key ∈ t.map (·.1) := by
  induction t with
  | nil => simp [find?]
  | cons e rest ih =>
    obtain ⟨k, b⟩ := e
    unfold find?
    split
    · rename_i hkey
      simp [eq_of_beq hkey]
    · rename_i hkey
      have hne : key ≠ k := fun h => hkey (beq_iff_eq.2 h)
      simp [ih, hne]

theorem find?_eq_of_mem {t : Table κ α} (h : (t.map (·.1)).Nodup) {e : κ × α} (he : e ∈ t) :
    t.find? e.1 = some e.2 := by
  induction t with
  | nil => cases he
  | cons e' rest ih =>
    obtain ⟨k, b⟩ := e'
    rw [List.map_cons, List.nodup_cons] at h
    unfold find?
    rcases List.mem_cons.1 he with rfl | hrest
    · rw [if_pos (beq_iff_eq.2 rfl)]
    · have hne : e.1 ≠ k := fun heq => h.1 (List.mem_map.2 ⟨e, hrest, heq⟩)
      rw [if_neg (by simpa using hne)]
      exact ih h.2 hrest

/-- Entries under the same keys are found together. -/
theorem find?_of_forall₂ {β : Type} {R : κ × α → κ × β → Prop} {t : Table κ α} {t' : Table κ β}
    (h : List.Forall₂ (fun e e' => e'.1 = e.1 ∧ R e e') t t') (key : κ) :
    (t.find? key = none ∧ t'.find? key = none) ∨
      ∃ a b, t.find? key = some a ∧ t'.find? key = some b ∧ R (key, a) (key, b) := by
  induction h with
  | nil => exact .inl ⟨rfl, rfl⟩
  | @cons e e' rest rest' he _ ih =>
    obtain ⟨k, a⟩ := e
    obtain ⟨k', b⟩ := e'
    obtain ⟨hk, hR⟩ := he
    obtain rfl : k' = k := hk
    unfold find?
    by_cases hkey : key == k'
    · rw [if_pos hkey, if_pos hkey]
      obtain rfl := eq_of_beq hkey
      exact .inr ⟨a, b, rfl, rfl, hR⟩
    · rw [if_neg hkey, if_neg hkey]
      exact ih

end Table

namespace Value

variable {K : Type}

/-! ## Paths -/

/-- One step from a payload to a member of it. -/
inductive Label where
  /-- By position in a sequence. -/
  | position (i : Nat)
  /-- By a key of a mapping, or the name of a field. -/
  | key (name : String)

/-- The member of a payload one step on. -/
def member? (v : Value K) : Label → Option (Value K)
  | .position i => v.items[i]?
  | .key name => Table.find? v.entries name

/-- The part of a payload at the end of a path. -/
def part? (v : Value K) : List Label → Option (Value K)
  | [] => some v
  | l :: path => (v.member? l).bind fun m => m.part? path

theorem part?_cons (v : Value K) (l : Label) (path : List Label) :
    v.part? (l :: path) = (v.member? l).bind fun m => m.part? path := rfl

theorem member?_of_empty {v : Value K} (hitems : v.items = []) (hentries : v.entries = [])
    (l : Label) : v.member? l = none := by
  cases l with
  | position i => rw [member?, hitems]; rfl
  | key name => rw [member?, hentries]; rfl

/-- Without members a payload has no part but itself. -/
theorem part?_of_leaf {v a : Value K} {path : List Label} (hv : ∀ l, v.member? l = none)
    (h : v.part? path = some a) : path = [] ∧ a = v := by
  cases path with
  | nil => exact ⟨rfl, (Option.some.inj h).symm⟩
  | cons l path =>
    rw [part?_cons, hv l] at h
    cases h

/-- What holds of a payload and of all parts of its members holds of all its parts. -/
theorem forall_part_of_members {v : Value K} {P : Value K → Prop} (h : P v)
    (hmembers : ∀ l m, v.member? l = some m → ∀ path a, m.part? path = some a → P a) :
    ∀ path a, v.part? path = some a → P a := by
  intro path a ha
  cases path with
  | nil => exact Option.some.inj ha ▸ h
  | cons l path =>
    rw [part?_cons] at ha
    obtain ⟨m, hm, ha⟩ := Option.bind_eq_some_iff.1 ha
    exact hmembers l m hm path a ha

/-- A member is smaller than what it is a member of. -/
theorem sizeOf_member? {v m : Value K} {l : Label} (h : v.member? l = some m) :
    sizeOf m < sizeOf v := by
  cases l with
  | position i =>
    have hmem : m ∈ v.items := List.mem_of_getElem? h
    have hlt := List.sizeOf_lt_of_mem hmem
    cases v <;> simp only [items, List.not_mem_nil, list.sizeOf_spec, tuple.sizeOf_spec]
      at hmem hlt ⊢
    all_goals omega
  | key name =>
    have hmem : (name, m) ∈ v.entries := Table.mem_of_find? h
    have hlt := List.sizeOf_lt_of_mem hmem
    have hpair : sizeOf (name, m) = 1 + sizeOf name + sizeOf m := rfl
    cases v <;> simp only [entries, List.not_mem_nil, mapping.sizeOf_spec, named.sizeOf_spec,
      record.sizeOf_spec, totalled.sizeOf_spec] at hmem hlt ⊢
    all_goals omega

/-- What holds of a payload as soon as it holds of its members holds of every payload. -/
theorem induction_on_members {P : Value K → Prop}
    (h : ∀ v, (∀ l m, v.member? l = some m → P m) → P v) (v : Value K) : P v :=
  h v fun _ m hm => have := sizeOf_member? hm; induction_on_members h m
termination_by sizeOf v

/-! ## Forms and numbers -/

/-- What remains of a payload when its numbers and its members are left out. -/
inductive Form where
  /-- It has no expectation. -/
  | other
  /-- It is a number; so is an array without an index. -/
  | number
  /-- It is an array of numbers. -/
  | array (shape : List Nat)
  /-- It has members; for a sequence it is said how many. -/
  | structured (kind : Kind) (length : Nat)

/-- The form of an array. -/
def Form.ofShape (shape : List Nat) : Form := if shape = [] then .number else .array shape

/-- The form of a payload. -/
def form : Value K → Form
  | .whole _ | .real _ => .number
  | .array shape _ | .wholeArray shape _ => .ofShape shape
  | .list xs => .structured .list xs.length
  | .tuple xs => .structured .tuple xs.length
  | .mapping _ => .structured .mapping 0
  | .named t fields => .structured (.named t (fields.map (·.1))) 0
  | .record t fields => .structured (.record t (fields.map (·.1))) 0
  | .totalled t fields => .structured (.totalled t (fields.map (·.1))) 0
  | .null | .flag _ | .text _ | .textArray _ | .weather _ | .sealed _ => .other

/-- It is an array of numbers. -/
def isArray : Value K → Bool
  | .array _ _ | .wholeArray _ _ => true
  | _ => false

/-- It is an array of texts. -/
def isTexts : Value K → Bool
  | .textArray _ => true
  | _ => false

/-- It is a sequence, which can be read as an array. -/
def isSequence : Value K → Bool
  | .list _ | .tuple _ | .named _ _ => true
  | _ => false

/-- Number of entries of an array with a shape. -/
def volume (shape : List Nat) : Nat := shape.foldl (· * ·) 1

theorem Form.ofShape_injective {s s' : List Nat} (h : ofShape s = ofShape s') : s = s' := by
  unfold ofShape at h
  split at h <;> split at h <;> simp_all

theorem Form.ofShape_ne_structured (s : List Nat) (k : Kind) (n : Nat) :
    ofShape s ≠ structured k n := by
  unfold ofShape
  split <;> exact Form.noConfusion

theorem Form.ofShape_ne_other (s : List Nat) : ofShape s ≠ other := by
  unfold ofShape
  split <;> exact Form.noConfusion

/-- The form at the end of a path. -/
def formAt (v : Value K) (path : List Label) : Option Form := (v.part? path).map form

@[simp] theorem formAt_nil (v : Value K) : v.formAt [] = some v.form := rfl

theorem formAt_cons (v : Value K) (l : Label) (path : List Label) :
    v.formAt (l :: path) = (v.member? l).bind fun m => m.formAt path := by
  rw [formAt, part?_cons]
  cases v.member? l <;> rfl

section Scalar

variable [Scalar K]

/-- The numbers of a payload that is a number or an array of them. -/
def numbers : Value K → List K
  | .whole n => [Scalar.ofInt n]
  | .real x => [x]
  | .array _ xs => xs
  | .wholeArray _ ns => ns.map Scalar.ofInt
  | _ => []

/-- The numbers at the end of a path. -/
def numbersAt (v : Value K) (path : List Label) : List K := ((v.part? path).map numbers).getD []

/-- A number among those at the end of a path. -/
def entry (v : Value K) (path : List Label) (j : Nat) : K := (v.numbersAt path).getD j 0

theorem numbersAt_cons {v m : Value K} {l : Label} (h : v.member? l = some m) (path : List Label) :
    v.numbersAt (l :: path) = m.numbersAt path := by
  rw [numbersAt, part?_cons, h]
  rfl

theorem numbersAt_of_not_member {v : Value K} {l : Label} (h : v.member? l = none)
    (path : List Label) : v.numbersAt (l :: path) = [] := by
  rw [numbersAt, part?_cons, h]
  rfl

theorem entry_cons {v m : Value K} {l : Label} (h : v.member? l = some m) (path : List Label)
    (j : Nat) : v.entry (l :: path) j = m.entry path j := by
  rw [entry, numbersAt_cons h, entry]

/-- Two payloads hold the same data: wherever a path leads, the same is found in both. -/
def Same (v w : Value K) : Prop :=
  ∀ path, v.formAt path = w.formAt path ∧ v.numbersAt path = w.numbersAt path

/-- A payload is made in the way of its type: an array has an entry for every index, a key
or a field is there once, a total can be taken, and there is no expectation of its own. -/
def WellMade : Value K → Prop
  | .array shape xs => xs.length = volume shape
  | .wholeArray shape ns => ns.length = volume shape
  | .mapping fields | .named _ fields | .record _ fields => (fields.map (·.1)).Nodup
  | .totalled _ fields => (fields.map (·.1)).Nodup ∧ ∃ t, total fields = .ok t
  | .weather _ => False
  | _ => True

/-- Every part of a payload is well made. -/
def Proper (v : Value K) : Prop := ∀ path a, v.part? path = some a → a.WellMade

theorem Proper.wellMade {v : Value K} (h : v.Proper) : v.WellMade := h [] v rfl

theorem Proper.member {v m : Value K} {l : Label} (h : v.Proper) (hm : v.member? l = some m) :
    m.Proper := fun path a ha => h (l :: path) a (by rw [part?_cons, hm]; exact ha)

theorem proper_of_leaf {v : Value K} (h : v.WellMade) (hv : ∀ l, v.member? l = none) : v.Proper :=
  fun _ _ ha => (part?_of_leaf hv ha).2 ▸ h

theorem proper_of_members {v : Value K} (h : v.WellMade)
    (hmembers : ∀ l m, v.member? l = some m → m.Proper) : v.Proper :=
  forall_part_of_members h hmembers

end Scalar

/-! ## Likeness -/

/-- Two payloads have the same structure, down to the shapes of arrays. -/
def SameForm (v w : Value K) : Prop := ∀ path, v.formAt path = w.formAt path

/-- Every part of a payload has an expectation. -/
def Solid (v : Value K) : Prop := ∀ path, v.formAt path ≠ some .other

/-- Payloads of one structure, which have an expectation. -/
def Uniform (vs : List (Value K)) : Prop := ∀ v ∈ vs, v.Solid ∧ ∀ w ∈ vs, v.SameForm w

/-- What may be found in another payload where something is found in one.  An array of numbers
goes with arrays of numbers, and if it has an index with whatever cannot be read as an array
with one; an array of texts goes with whatever is no sequence. -/
def Meets (a b : Value K) : Prop :=
  (a.isArray = true → b.isArray = true ∨
    (a.form ≠ .number ∧ b.isSequence = false ∧ b.isTexts = false)) ∧
  (a.isTexts = true → b.isSequence = false)

/-- Wherever something is found in both of two payloads, one may meet the other. -/
def Aligned (v w : Value K) : Prop := ∀ path a b, v.part? path = some a → w.part? path = some b →
  a.Meets b ∧ b.Meets a

theorem SameForm.refl (v : Value K) : v.SameForm v := fun _ => rfl

theorem SameForm.symm {v w : Value K} (h : v.SameForm w) : w.SameForm v := fun path => (h path).symm

theorem SameForm.trans {u v w : Value K} (h : u.SameForm v) (h' : v.SameForm w) : u.SameForm w :=
  fun path => (h path).trans (h' path)

theorem SameForm.solid {v w : Value K} (h : v.SameForm w) (hv : v.Solid) : w.Solid :=
  fun path hw => hv path ((h path).trans hw)

theorem SameForm.form_eq {v w : Value K} (h : v.SameForm w) : v.form = w.form :=
  Option.some.inj (h [])

/-- Payloads of one structure have the same members. -/
theorem SameForm.member_isSome {v w : Value K} (h : v.SameForm w) (l : Label) :
    (v.member? l).isSome = (w.member? l).isSome := by
  have hl := congrArg Option.isSome (h [l])
  rw [formAt_cons, formAt_cons] at hl
  cases hv : v.member? l <;> cases hw : w.member? l <;> simp_all

theorem SameForm.member {v w m m' : Value K} (h : v.SameForm w) {l : Label}
    (hm : v.member? l = some m) (hm' : w.member? l = some m') : m.SameForm m' := by
  intro path
  have hpath := h (l :: path)
  rw [formAt_cons, formAt_cons, hm, hm'] at hpath
  exact hpath

theorem Solid.member {v m : Value K} (h : v.Solid) {l : Label} (hm : v.member? l = some m) :
    m.Solid := by
  intro path
  have hpath := h (l :: path)
  rw [formAt_cons, hm] at hpath
  exact hpath

/-- The members of payloads at one label. -/
def membersAt (vs : List (Value K)) (l : Label) : List (Value K) := vs.filterMap (·.member? l)

theorem Uniform.members {vs : List (Value K)} (h : Uniform vs) (l : Label) :
    Uniform (membersAt vs l) := by
  intro m hm
  obtain ⟨v, hv, hvm⟩ := List.mem_filterMap.1 hm
  refine ⟨(h v hv).1.member hvm, fun m' hm' => ?_⟩
  obtain ⟨w, hw, hwm⟩ := List.mem_filterMap.1 hm'
  exact ((h v hv).2 w hw).member hvm hwm

/-- Payloads of one form with the same members are of one structure if their members are. -/
theorem uniform_of_members {vs : List (Value K)} (hform : ∀ v ∈ vs, ∀ w ∈ vs, v.form = w.form)
    (hother : ∀ v ∈ vs, v.form ≠ .other)
    (hsome : ∀ l, ∀ v ∈ vs, ∀ w ∈ vs, (v.member? l).isSome = (w.member? l).isSome)
    (h : ∀ l, Uniform (membersAt vs l)) : Uniform vs := by
  intro v hv
  refine ⟨fun path hpath => ?_, fun w hw path => ?_⟩
  · cases path with
    | nil => exact hother v hv (Option.some.inj hpath)
    | cons l path =>
      rw [formAt_cons] at hpath
      obtain ⟨m, hm, hpath⟩ := Option.bind_eq_some_iff.1 hpath
      exact (h l m (List.mem_filterMap.2 ⟨v, hv, hm⟩)).1 path hpath
  · cases path with
    | nil => exact congrArg some (hform v hv w hw)
    | cons l path =>
      rw [formAt_cons, formAt_cons]
      have hl := hsome l v hv w hw
      cases hvm : v.member? l with
      | none =>
        rw [hvm, Option.isSome_none, eq_comm, Option.isSome_eq_false_iff, Option.isNone_iff_eq_none]
          at hl
        rw [hl]
      | some m =>
        rw [hvm, Option.isSome_some, eq_comm] at hl
        obtain ⟨m', hwm⟩ := Option.isSome_iff_exists.1 hl
        rw [hwm]
        exact (h l m (List.mem_filterMap.2 ⟨v, hv, hvm⟩)).2 m'
          (List.mem_filterMap.2 ⟨w, hw, hwm⟩) path

theorem uniform_of_leaves {vs : List (Value K)} (hmember : ∀ v ∈ vs, ∀ l, v.member? l = none)
    (hform : ∀ v ∈ vs, ∀ w ∈ vs, v.form = w.form) (hother : ∀ v ∈ vs, v.form ≠ .other) :
    Uniform vs := by
  refine uniform_of_members hform hother (fun l v hv w hw => ?_) fun l m hm => ?_
  · rw [hmember v hv, hmember w hw]
  · obtain ⟨v, hv, hvm⟩ := List.mem_filterMap.1 hm
    rw [hmember v hv] at hvm
    cases hvm

/-- No part of a payload is an array without an index. -/
def Settled (v : Value K) : Prop :=
  ∀ path a, v.part? path = some a → a.isArray = true → a.form ≠ .number

theorem settled_of_members {e : Value K} (h : e.isArray = true → e.form ≠ .number)
    (hmembers : ∀ l m, e.member? l = some m → m.Settled) : e.Settled :=
  forall_part_of_members (P := fun a => a.isArray = true → a.form ≠ .number) h hmembers

end Value

end Recourse
