/-
  Proofs/Model/Expression.lean --- expressions as they are written.

  A `Term` is what is written: arithmetic over numbers and columns, nested at will, with
  numbers on either side.  `Term.compile` works it out with the operators of the
  library; `Term.eval` is ordinary arithmetic on the numbers that the columns take.
  `Term.compile_isOk_iff` says which terms are expressions at all: no two columns are
  multiplied, and only numbers other than zero are divided by.  `Term.compile_denotes`
  says that what is compiled has the ordinary value at every point.
-/
import Recourse.Proofs.Effect
import Recourse.Proofs.Model.Terms
import Recourse.Script.Formula

set_option autoImplicit false
set_option linter.unusedSectionVars false

namespace Recourse

/-- An arithmetic operation. -/
inductive Arithmetic where
  /-- Sum. -/
  | add
  /-- Difference. -/
  | subtract
  /-- Product. -/
  | multiply
  /-- Quotient. -/
  | divide
  deriving DecidableEq, Repr

/-- An expression as it is written. -/
inductive Term (K : Type) where
  /-- A number. -/
  | number (n : Numeral K)
  /-- A column. -/
  | column (c : Variable K)
  /-- An operation on two expressions. -/
  | operation (op : Arithmetic) (left right : Term K)
  /-- The negative. -/
  | negative (operand : Term K)

namespace Arithmetic

/-- The operator of the library. -/
def operator : Arithmetic → Operator
  | .add => .add
  | .subtract => .subtract
  | .multiply => .multiply
  | .divide => .divide

variable {K : Type} [Scalar K]

/-- The operation on numbers. -/
def apply : Arithmetic → K → K → K
  | .add, x, y => x + y
  | .subtract, x, y => x - y
  | .multiply, x, y => x * y
  | .divide, x, y => x / y

/-- The number that comes out where both operands are numbers. -/
def number? (op : Arithmetic) : Option K → Option K → Option K
  | some x, some y => some (op.apply x y)
  | _, _ => none

/-- Whether an operation can be carried out on two operands of which only those without
columns are known: columns are scaled by numbers only, and nothing is divided by zero. -/
def accepts : Arithmetic → Option K → Option K → Bool
  | .multiply, none, none | .divide, _, none => false
  | .divide, _, some y => !Scalar.isZero y
  | _, _, _ => true

/-- Whether the number that scales a column, if there is one, is finite. -/
def isTame : Arithmetic → Option K → Option K → Bool
  | .multiply, some x, none => Scalar.isFinite x
  | .multiply, none, some y => Scalar.isFinite y
  | .divide, none, some y => Scalar.isFinite (1 / y)
  | _, _, _ => true

end Arithmetic

namespace Term

variable {K : Type} [Scalar K]

/-- The ordinary value at a point. -/
def eval (p : Nat → K) : Term K → K
  | .number n => n.value
  | .column c => p c.index
  | .operation op a b => op.apply (a.eval p) (b.eval p)
  | .negative a => -a.eval p

/-- The number a term without columns stands for. -/
def number? : Term K → Option K
  | .number n => some n.value
  | .column _ => none
  | .operation op a b => op.number? a.number? b.number?
  | .negative a => a.number?.map (-·)

/-- Work a term out, operator by operator. -/
def compile : Term K → Except (Fault K) (Quantity K)
  | .number (.whole n) => .ok (.value (.whole n))
  | .number (.real x) => .ok (.real x)
  | .column c => .ok (.column c)
  | .operation op a b => do op.operator.onQuantities 0 (← a.compile) (← b.compile)
  | .negative a => do Formula.negated (← a.compile)

/-- Whether a term is linear in the columns it mentions. -/
def isLinear : Term K → Bool
  | .number _ | .column _ => true
  | .operation op a b => a.isLinear && b.isLinear && op.accepts a.number? b.number?
  | .negative a => a.isLinear

/-- Whether no column is scaled by an infinite number. -/
def isTame : Term K → Bool
  | .number _ | .column _ => true
  | .operation op a b => a.isTame && b.isTame && op.isTame a.number? b.number?
  | .negative a => a.isTame

/-- Whether every number that is written is finite. -/
def isFinite : Term K → Bool
  | .number n => Scalar.isFinite n.value
  | .column _ => true
  | .operation _ a b => a.isFinite && b.isFinite
  | .negative a => a.isFinite

/-- The columns a term mentions. -/
def columns : Term K → List (Variable K)
  | .number _ => []
  | .column c => [c]
  | .operation _ a b => a.columns ++ b.columns
  | .negative a => a.columns

end Term

/-! ## What is compiled -/

namespace Quantity

variable {K : Type} [Scalar K]

/-- An expression is no number. -/
theorem toNumber_eq_error {q : Quantity K} {e : LinearExpr K} (h : q.linear? = some e) :
    q.toNumber = .error (.misuse .kind) := by
  cases q with
  | value v => cases h
  | row r => cases h
  | column c => rfl
  | expr e => rfl

/-- What is compiled is a number or a linear expression. -/
def Stands (q : Quantity K) : Option K → Prop
  | some x => q.linear? = none ∧ q.toNumber = .ok x
  | none => ∃ e, q.linear? = some e

end Quantity

namespace Quantity.Stands

variable {K : Type} [Scalar K] {q : Quantity K} {x : Option K}

theorem toLinear (h : q.Stands x) : ∃ e, q.toLinear = .ok e := by
  unfold Quantity.toLinear
  cases x with
  | some x => exact ⟨LinearExpr.ofNumber x, by rw [h.1, h.2]; rfl⟩
  | none =>
    obtain ⟨e, he⟩ := h
    exact ⟨e, by rw [he]⟩

end Quantity.Stands

namespace Term

variable {K : Type} [Scalar K]

theorem stands_onLeft (op : Arithmetic) (e : LinearExpr K) {b : Quantity K} {y : Option K}
    (hb : b.Stands y) :
    Settles (op.operator.onLeft 0 e b)
      (fun q => op.accepts none y = true ∧ ∃ e', q = .expr e') (fun _ => op.accepts none y = false) := by
  obtain ⟨f, hf⟩ := hb.toLinear
  cases op with
  | add | subtract =>
    simp only [Arithmetic.operator, Operator.onLeft, hf, bind, Except.bind, pure, Except.pure]
    exact ⟨rfl, _, rfl⟩
  | multiply =>
    cases y with
    | none =>
      obtain ⟨e', he'⟩ := hb
      simp only [Arithmetic.operator, Operator.onLeft, Quantity.toNumber_eq_error he', bind,
        Except.bind]
      rfl
    | some y =>
      simp only [Arithmetic.operator, Operator.onLeft, hb.2, bind, Except.bind, pure, Except.pure]
      exact ⟨rfl, _, rfl⟩
  | divide =>
    cases y with
    | none =>
      obtain ⟨e', he'⟩ := hb
      simp only [Arithmetic.operator, Operator.onLeft, Quantity.toNumber_eq_error he', bind,
        Except.bind]
      rfl
    | some y =>
      simp only [Arithmetic.operator, Operator.onLeft, hb.2, bind, Except.bind]
      split
      case isTrue h => simp [Settles, Arithmetic.accepts, h, throw, throwThe, MonadExceptOf.throw]
      case isFalse h => exact ⟨by simpa [Arithmetic.accepts] using h, _, rfl⟩

theorem stands_onRight (op : Arithmetic) (e : LinearExpr K) {a : Quantity K} {x : K}
    (ha : a.Stands (some x)) :
    Settles (op.operator.onRight 0 a e)
      (fun q => op.accepts (some x) none = true ∧ ∃ e', q = .expr e')
      (fun _ => op.accepts (some x) none = false) := by
  obtain ⟨f, hf⟩ := ha.toLinear
  cases op with
  | add => exact stands_onLeft .add e ha
  | subtract =>
    simp only [Arithmetic.operator, Operator.onRight, hf, bind, Except.bind, pure, Except.pure]
    exact ⟨rfl, _, rfl⟩
  | multiply => exact stands_onLeft .multiply e ha
  | divide => exact rfl

theorem stands_onNumbers (op : Arithmetic) (x y : K) :
    Settles (op.operator.onNumbers x y)
      (fun q => op.accepts (some x) (some y) = true ∧ q = .real (op.apply x y))
      (fun _ => op.accepts (some x) (some y) = false) := by
  cases op with
  | divide =>
    simp only [Arithmetic.operator, Operator.onNumbers]
    split
    case isTrue h => simp [Settles, Arithmetic.accepts, h]
    case isFalse h => exact ⟨by simpa [Arithmetic.accepts] using h, rfl⟩
  | _ => exact ⟨rfl, rfl⟩

/-- An operation is carried out exactly if the operands allow it, and gives a number only
where both of them are numbers. -/
theorem stands_operation (op : Arithmetic) {a b : Quantity K} {x y : Option K} (ha : a.Stands x)
    (hb : b.Stands y) :
    Settles (op.operator.onQuantities 0 a b)
      (fun q => op.accepts x y = true ∧ q.Stands (op.number? x y))
      (fun _ => op.accepts x y = false) := by
  unfold Operator.onQuantities
  cases x with
  | none =>
    obtain ⟨e, he⟩ := ha
    rw [he]
    refine (stands_onLeft op e hb).mono ?_ fun _ => id
    rintro q ⟨haccepts, e', rfl⟩
    exact ⟨haccepts, e', rfl⟩
  | some x =>
    rw [ha.1]
    cases y with
    | none =>
      obtain ⟨e, he⟩ := hb
      rw [he]
      refine (stands_onRight op e ha).mono ?_ fun _ => id
      rintro q ⟨haccepts, e', rfl⟩
      exact ⟨haccepts, e', rfl⟩
    | some y =>
      rw [hb.1]
      simp only [ha.2, hb.2, bind, Except.bind]
      refine (stands_onNumbers op x y).mono ?_ fun _ => id
      rintro q ⟨haccepts, rfl⟩
      exact ⟨haccepts, rfl, rfl⟩

/-- The negative of a quantity stands for the negative of its number. -/
theorem stands_negated {a : Quantity K} {x : Option K} (ha : a.Stands x) :
    Settles (Formula.negated a) (·.Stands (x.map (-·))) fun _ => False := by
  unfold Formula.negated
  cases x with
  | none =>
    obtain ⟨e, he⟩ := ha
    rw [he]
    exact ⟨_, rfl⟩
  | some x =>
    rw [ha.1]
    simp only [ha.2, bind, Except.bind]
    exact ⟨rfl, rfl⟩

/-- A term is compiled exactly if it is linear, to a number where it mentions no column and
to an expression where it does. -/
theorem compile_settles (t : Term K) :
    Settles t.compile (fun q => t.isLinear = true ∧ q.Stands t.number?)
      (fun _ => t.isLinear = false) := by
  induction t with
  | number n => cases n <;> exact ⟨rfl, rfl, rfl⟩
  | column c => exact ⟨rfl, _, rfl⟩
  | operation op a b iha ihb =>
    refine Settles.bind (iha.mono ?_ fun _ h => by simp [isLinear, h])
    rintro qa ⟨hla, ha⟩
    refine Settles.bind (ihb.mono ?_ fun _ h => by simp [isLinear, h])
    rintro qb ⟨hlb, hb⟩
    refine (stands_operation op ha hb).mono ?_ fun _ h => by simp [isLinear, h]
    rintro q ⟨haccepts, hq⟩
    exact ⟨by simp [isLinear, hla, hlb, haccepts], hq⟩
  | negative a ih =>
    refine Settles.bind (ih.mono ?_ fun _ h => h)
    rintro q ⟨hl, hq⟩
    exact (stands_negated hq).mono (fun _ h => ⟨hl, h⟩) fun _ h => h.elim

/-- A term without columns has the same value everywhere. -/
theorem eval_eq_of_number? {t : Term K} {x : K} (h : t.number? = some x) (p : Nat → K) :
    t.eval p = x := by
  induction t generalizing x with
  | number n => exact Option.some.inj h
  | column c => cases h
  | operation op a b iha ihb =>
    simp only [number?] at h
    cases ha : a.number? with
    | none => rw [ha] at h; cases h
    | some y =>
      cases hb : b.number? with
      | none => rw [ha, hb] at h; cases h
      | some z =>
        rw [ha, hb] at h
        rw [eval, iha ha, ihb hb]
        exact Option.some.inj h
  | negative a ih =>
    obtain ⟨y, hy, rfl⟩ := Option.map_eq_some_iff.1 h
    rw [eval, ih hy]

/-- The terms that can be worked out are the linear ones. -/
theorem compile_isOk_iff (t : Term K) : (∃ q, t.compile = .ok q) ↔ t.isLinear = true := by
  have h := t.compile_settles
  cases hq : t.compile with
  | ok q => simp [(h.of_ok hq).1]
  | error f => simp [h.of_error hq]

end Term

/-! ## Values of what is compiled -/

variable {F : Type} [Field F] [LinearOrder F] [IsStrictOrderedRing F] [FloorRing F]

/-- A quantity has the values of a function at all points of the first `n` columns. -/
structure Quantity.Denotes (q : Quantity (Exact F)) (n : Nat) (f : (Nat → F) → Exact F) : Prop where
  /-- An expression takes them as its values. -/
  expression : ∀ e, q.linear? = some e →
    LinearExpr.ProperTerms e.terms n ∧ ∀ v, e.eval (fun j => .finite (v j)) = f v
  /-- A number is the only one of them. -/
  number : q.linear? = none → ∀ x, q.toNumber = .ok x → ∀ v, f v = x

namespace Quantity.Denotes

variable {q : Quantity (Exact F)} {n : Nat} {f : (Nat → F) → Exact F} {e : LinearExpr (Exact F)}

theorem of_expr (hterms : LinearExpr.ProperTerms e.terms n)
    (hvalue : ∀ v, e.eval (fun j => .finite (v j)) = f v) : (Quantity.expr e).Denotes n f :=
  ⟨fun _ he => Option.some.inj he ▸ ⟨hterms, hvalue⟩, fun h => (nomatch h)⟩

theorem of_real {x : Exact F} (h : ∀ v, f v = x) : (Quantity.real x).Denotes n f :=
  ⟨fun _ he => (nomatch he), fun _ _ hy v => (h v).trans (Except.ok.inj hy)⟩

/-- The expression a quantity is read as, a number as a constant one. -/
theorem toLinear (h : q.Denotes n f) (he : q.toLinear = .ok e) :
    LinearExpr.ProperTerms e.terms n ∧ ∀ v, e.eval (fun j => .finite (v j)) = f v := by
  unfold Quantity.toLinear at he
  cases hq : q.linear? with
  | some e' =>
    rw [hq] at he
    exact Except.ok.inj he ▸ h.expression e' hq
  | none =>
    rw [hq] at he
    cases hx : q.toNumber with
    | error _ => rw [hx] at he; cases he
    | ok x =>
      rw [hx] at he
      rw [← Except.ok.inj he]
      exact ⟨LinearExpr.properTerms_ofNumber x n, fun v =>
        (LinearExpr.eval_ofNumber x _).trans (h.number hq x hx v).symm⟩

end Quantity.Denotes

namespace Term

open LinearExpr

variable {n : Nat} {f g : (Nat → F) → Exact F} {e : LinearExpr (Exact F)}

section Left

variable {b q : Quantity (Exact F)} {y : Option (Exact F)}

theorem denotes_onLeft (op : Arithmetic) (he : ProperTerms e.terms n)
    (hf : ∀ v, e.eval (fun j => .finite (v j)) = f v) (hs : b.Stands y) (hb : b.Denotes n g)
    (htame : op.isTame none y = true) (h : op.operator.onLeft 0 e b = .ok q) :
    q.Denotes n fun v => op.apply (f v) (g v) := by
  obtain ⟨e', he'⟩ := hs.toLinear
  obtain ⟨hterms, hg⟩ := hb.toLinear he'
  cases op with
  | add =>
    simp only [Arithmetic.operator, Operator.onLeft, he', bind, Except.bind, pure, Except.pure] at h
    cases h
    refine .of_expr (combine_spec he hterms 1).1 fun v => ?_
    rw [Exact.one_eq, eval_combine he hterms, Exact.one_mul, hf, hg, Arithmetic.apply]
  | subtract =>
    simp only [Arithmetic.operator, Operator.onLeft, he', bind, Except.bind, pure, Except.pure] at h
    cases h
    refine .of_expr (combine_spec he hterms (-1)).1 fun v => ?_
    rw [Exact.neg_one_eq, eval_combine he hterms, Exact.neg_one_mul_eq, hf, hg, Arithmetic.apply,
      Exact.sub_eq]
  | multiply =>
    -- Two expressions are not multiplied.
    cases y with
    | none =>
      obtain ⟨e', he'⟩ := hs
      simp only [Arithmetic.operator, Operator.onLeft, Quantity.toNumber_eq_error he', bind,
        Except.bind] at h
      cases h
    | some y =>
      obtain ⟨a, rfl⟩ := (Exact.isFinite_iff y).1 htame
      simp only [Arithmetic.operator, Operator.onLeft, hs.2, bind, Except.bind, pure,
        Except.pure] at h
      cases h
      refine .of_expr (he.scaled a) fun v => ?_
      rw [eval_scaled he, hf, Arithmetic.apply, hb.number hs.1 _ hs.2]
  | divide =>
    cases y with
    | none =>
      obtain ⟨e', he'⟩ := hs
      simp only [Arithmetic.operator, Operator.onLeft, Quantity.toNumber_eq_error he', bind,
        Except.bind] at h
      cases h
    | some y =>
      obtain ⟨a, ha⟩ := (Exact.isFinite_iff (1 / y)).1 htame
      simp only [Arithmetic.operator, Operator.onLeft, hs.2, bind, Except.bind, pure,
        Except.pure] at h
      split at h
      · cases h
      · rename_i hzero
        cases h
        rw [ha]
        refine .of_expr (he.scaled a) fun v => ?_
        rw [eval_scaled he, hf, Arithmetic.apply, hb.number hs.1 _ hs.2,
          Exact.div_eq_mul_reciprocal _ (Bool.eq_false_iff.2 hzero) htame, ha]

end Left

section Right

variable {a q : Quantity (Exact F)} {x : Exact F}

theorem denotes_onRight (op : Arithmetic) (he : ProperTerms e.terms n)
    (hg : ∀ v, e.eval (fun j => .finite (v j)) = g v) (hs : a.Stands (some x))
    (ha : a.Denotes n f) (htame : op.isTame (some x) none = true)
    (h : op.operator.onRight 0 a e = .ok q) :
    q.Denotes n fun v => op.apply (f v) (g v) := by
  cases op with
  | add =>
    have hsum := denotes_onLeft .add he hg hs ha rfl h
    simp only [Arithmetic.apply] at hsum ⊢
    simpa only [Exact.add_comm] using hsum
  | subtract =>
    obtain ⟨e', he'⟩ := hs.toLinear
    obtain ⟨hterms, hf⟩ := ha.toLinear he'
    simp only [Arithmetic.operator, Operator.onRight, he', bind, Except.bind, pure,
      Except.pure] at h
    cases h
    refine .of_expr (combine_spec (he.scaled (-1)) hterms 1).1 fun v => ?_
    rw [Exact.neg_one_eq, Exact.one_eq, eval_combine (he.scaled (-1)) hterms, eval_scaled he,
      Exact.mul_comm, Exact.neg_one_mul_eq, Exact.one_mul, hf, hg, Arithmetic.apply, Exact.sub_eq,
      Exact.add_comm]
  | multiply =>
    have hproduct := denotes_onLeft .multiply he hg hs ha htame h
    simp only [Arithmetic.apply] at hproduct ⊢
    simpa only [Exact.mul_comm] using hproduct
  | divide => cases h

end Right

section Operation

variable {a b q : Quantity (Exact F)} {x y : Option (Exact F)}

/-- What an operation gives denotes the operation on what the operands denote. -/
theorem denotes_operation (op : Arithmetic) (hsa : a.Stands x) (ha : a.Denotes n f)
    (hsb : b.Stands y) (hb : b.Denotes n g) (htame : op.isTame x y = true)
    (h : op.operator.onQuantities 0 a b = .ok q) :
    q.Denotes n fun v => op.apply (f v) (g v) := by
  unfold Operator.onQuantities at h
  cases x with
  | none =>
    obtain ⟨e, he⟩ := hsa
    rw [he] at h
    obtain ⟨hterms, hf⟩ := ha.expression e he
    exact denotes_onLeft op hterms hf hsb hb htame h
  | some x =>
    rw [hsa.1] at h
    cases y with
    | none =>
      obtain ⟨e, he⟩ := hsb
      rw [he] at h
      obtain ⟨hterms, hg⟩ := hb.expression e he
      exact denotes_onRight op hterms hg hsa ha htame h
    | some y =>
      rw [hsb.1] at h
      simp only [hsa.2, hsb.2, bind, Except.bind] at h
      obtain ⟨-, rfl⟩ := (stands_onNumbers op x y).of_ok h
      refine .of_real fun v => ?_
      rw [ha.number hsa.1 x hsa.2, hb.number hsb.1 y hsb.2]

/-- The negative of a quantity denotes the negative of what the quantity denotes. -/
theorem denotes_negated (ha : a.Denotes n f) (h : Formula.negated a = .ok q) :
    q.Denotes n fun v => -f v := by
  unfold Formula.negated at h
  cases hl : a.linear? with
  | some e =>
    rw [hl] at h
    cases h
    obtain ⟨hterms, hf⟩ := ha.expression e hl
    refine .of_expr (hterms.scaled (-1)) fun v => ?_
    rw [Exact.neg_one_eq, eval_scaled hterms, Exact.mul_comm, Exact.neg_one_mul_eq, hf]
  | none =>
    rw [hl] at h
    obtain ⟨x, hx, h⟩ := bind_eq_ok_iff.1 h
    cases h
    exact .of_real fun v => congrArg (-·) (ha.number hl x hx v)

end Operation

/-- What a term compiles to has the ordinary value of the term at every point. -/
theorem compile_denotes (t : Term (Exact F)) {q : Quantity (Exact F)} (h : t.compile = .ok q)
    (htame : t.isTame = true) (hcolumns : ∀ c ∈ t.columns, c.index < n) :
    q.Denotes n fun v => t.eval fun j => .finite (v j) := by
  induction t generalizing q with
  | number m =>
    cases m <;> cases h <;> exact ⟨fun _ he => (nomatch he), fun _ x hx v => Except.ok.inj hx⟩
  | column c =>
    cases h
    refine ⟨?_, fun h => (nomatch h)⟩
    rintro _ ⟨⟩
    exact ⟨properTerms_toExpr (hcolumns c List.mem_cons_self), fun v => eval_toExpr c v⟩
  | operation op a b iha ihb =>
    simp only [isTame, Bool.and_eq_true] at htame
    obtain ⟨⟨hta, htb⟩, htame⟩ := htame
    obtain ⟨qa, hqa, h⟩ := bind_eq_ok_iff.1 h
    obtain ⟨qb, hqb, h⟩ := bind_eq_ok_iff.1 h
    exact denotes_operation op (a.compile_settles.of_ok hqa).2
      (iha hqa hta fun c hc => hcolumns c (List.mem_append_left _ hc))
      (b.compile_settles.of_ok hqb).2
      (ihb hqb htb fun c hc => hcolumns c (List.mem_append_right _ hc)) htame h
  | negative a ih =>
    obtain ⟨qa, hqa, h⟩ := bind_eq_ok_iff.1 h
    exact denotes_negated (ih hqa htame hcolumns) h

end Term

namespace Arithmetic

/-- What is divided by is a number other than zero. -/
theorem divisor_of_accepts {x y : Option (Exact F)} (h : divide.accepts x y = true) :
    ∃ b, y = some b ∧ Scalar.isZero b = false := by
  cases y with
  | none => cases x <;> cases h
  | some b => exact ⟨b, rfl, by cases x <;> simpa [accepts] using h⟩

theorem isFinite_apply (op : Arithmetic) {x y : Exact F} (hx : Scalar.isFinite x = true)
    (hy : Scalar.isFinite y = true) (hzero : op = .divide → Scalar.isZero y = false) :
    Scalar.isFinite (op.apply x y) = true := by
  obtain ⟨a, rfl⟩ := (Exact.isFinite_iff x).1 hx
  obtain ⟨b, rfl⟩ := (Exact.isFinite_iff y).1 hy
  cases op with
  | divide =>
    have hb : b ≠ 0 := by simpa using hzero rfl
    rw [apply, Exact.finite_div hb]
    exact Exact.isFinite_finite (a / b)
  | _ => simp [apply]

theorem isTame_of_finite {op : Arithmetic} {x y : Option (Exact F)}
    (haccepts : op.accepts x y = true) (hx : ∀ a, x = some a → Scalar.isFinite a = true)
    (hy : ∀ b, y = some b → Scalar.isFinite b = true) : op.isTame x y = true := by
  cases op with
  | multiply =>
    cases x with
    | none => cases y with
      | none => rfl
      | some b => exact hy b rfl
    | some a => cases y with
      | none => exact hx a rfl
      | some b => rfl
  | divide =>
    obtain ⟨b, rfl, hzero⟩ := divisor_of_accepts haccepts
    cases x with
    | none =>
      exact isFinite_apply .divide (Exact.isFinite_finite 1) (hy b rfl) fun _ => hzero
    | some a => rfl
  | _ => rfl

end Arithmetic

namespace Term

/-- A linear term whose numbers are finite scales no column by anything infinite, and takes
finite values. -/
theorem isTame_of_isFinite {t : Term (Exact F)} (hlinear : t.isLinear = true)
    (hfinite : t.isFinite = true) :
    t.isTame = true ∧ ∀ v : Nat → F, Scalar.isFinite (t.eval fun j => .finite (v j)) = true := by
  induction t with
  | number m => exact ⟨rfl, fun _ => hfinite⟩
  | column c => exact ⟨rfl, fun v => Exact.isFinite_finite (v c.index)⟩
  | operation op a b iha ihb =>
    simp only [isLinear, isFinite, Bool.and_eq_true] at hlinear hfinite
    obtain ⟨⟨hla, hlb⟩, haccepts⟩ := hlinear
    obtain ⟨hta, hva⟩ := iha hla hfinite.1
    obtain ⟨htb, hvb⟩ := ihb hlb hfinite.2
    have hna : ∀ x, a.number? = some x → Scalar.isFinite x = true := fun x hx =>
      eval_eq_of_number? hx (fun _ => .finite (0 : F)) ▸ hva fun _ => 0
    have hnb : ∀ y, b.number? = some y → Scalar.isFinite y = true := fun y hy =>
      eval_eq_of_number? hy (fun _ => .finite (0 : F)) ▸ hvb fun _ => 0
    refine ⟨?_, fun v => ?_⟩
    · simp only [isTame, hta, htb, Bool.true_and]
      exact Arithmetic.isTame_of_finite haccepts hna hnb
    · refine Arithmetic.isFinite_apply op (hva v) (hvb v) ?_
      rintro rfl
      obtain ⟨y, hy, hzero⟩ := Arithmetic.divisor_of_accepts haccepts
      rwa [eval_eq_of_number? hy]
  | negative a ih =>
    obtain ⟨hta, hva⟩ := ih hlinear hfinite
    refine ⟨hta, fun v => ?_⟩
    obtain ⟨x, hx⟩ := (Exact.isFinite_iff _).1 (hva v)
    rw [eval, hx]
    exact Exact.isFinite_finite (-x)

end Term

end Recourse
