import LogSearch.Pipeline.Evaluation
import LogSearch.Proofs.Failing
import LogSearch.Proofs.Number.Comparison
import LogSearch.Regex.Program

/-!
# Which error arithmetic keeps

Arithmetic on what is no number gives an invalid number, which carries its errors into the arithmetic
around it. Of several operands that are no numbers, or divisors that are zero, the first one to be
evaluated gives the errors of the whole.

* `Arithmetic`: arithmetic over other expressions; `Arithmetic.nodes`: where it may go wrong, in the
  order of evaluation.
* `Arithmetic.Node.errors`: what is wrong at a node.
* `Field.operand_merge`: a number that could not be computed gives its errors as an operand.
* `Arithmetic.failsFirst_operand`: an operand fails with the first error of its nodes.
* `Arithmetic.number_or_first_error`, `Arithmetic.keeps_first_error`: the number, or the first error.
-/

namespace LogSearch

/-! ## Arithmetic over other expressions -/

namespace Arithmetic

/-- An operation on one number. -/
inductive Unary
  | negate
  | abs
  | floor
  | ceil
deriving DecidableEq

/-- The name of an operation in errors. -/
def Unary.text : Unary → String
  | negate => "-"
  | abs => "abs"
  | floor => "floor"
  | ceil => "ceil"

/-- What an operation does with a number. -/
def Unary.compute [Machine] : Unary → Double → Double
  | negate => Double.neg
  | abs => Double.abs
  | floor => Double.floor
  | ceil => Double.ceil

/-- An operation on an expression. -/
def Unary.on : Unary → Expr → Expr
  | negate, e => .negate e
  | abs, e => .call .abs [e]
  | floor, e => .call .floor [e]
  | ceil, e => .call .ceil [e]

/-- An operation on two numbers. -/
inductive Binary
  | add
  | sub
  | mul
  | div
deriving DecidableEq

/-- The operator of an operation. -/
def Binary.operator : Binary → BinaryOp
  | add => .add
  | sub => .sub
  | mul => .mul
  | div => .div

/-- What an operation does with two numbers. -/
def Binary.compute [Machine] : Binary → Double → Double → Field
  | add => fun x y => .number (x.add y)
  | sub => fun x y => .number (x.sub y)
  | mul => fun x y => .number (x.mul y)
  | div => Field.quotient

/-- Where arithmetic may go wrong: at an operand of an operation, and at a division. -/
inductive Node
  | operand (operation : String) (e : Expr)
  | division (divisor : Expr)

end Arithmetic

/-- Arithmetic over other expressions. -/
inductive Arithmetic
  | leaf (e : Expr)
  | unary (op : Arithmetic.Unary) (x : Arithmetic)
  | binary (op : Arithmetic.Binary) (x y : Arithmetic)

namespace Arithmetic

/-- The expression of the arithmetic. -/
def expr : Arithmetic → Expr
  | leaf e => e
  | unary op x => op.on x.expr
  | binary op x y => .binary op.operator x.expr y.expr

/-- The nodes of an operand of `operation`, in the order of evaluation: a division comes behind what it
divides. -/
def operandNodes (operation : String) : Arithmetic → List Node
  | leaf e => [.operand operation e]
  | unary op x => x.operandNodes op.text
  | binary op x y => x.operandNodes op.operator.text ++ y.operandNodes op.operator.text ++
      if op = .div then [.division y.expr] else []

/-- The nodes of an operation, in the order of evaluation. What it may be an operand of itself does not
matter, and a leaf alone is no operation. -/
def nodes : Arithmetic → List Node
  | leaf _ => []
  | t => t.operandNodes ""

end Arithmetic

/-- What is wrong with an operand: its errors, or that it is no number. -/
def Field.operandErrors (operation : String) (f : Field) : List String :=
  if f.errors ≠ [] then f.errors
  else if f.asNumber?.isSome then []
  else if f.isNull then [operation ++ ": operand is absent"]
  else [operation ++ ": '" ++ f.display ++ "' is not a number"]

/-- What is wrong with a divisor. -/
def Field.divisorErrors (f : Field) : List String :=
  if f.asNumber?.any (·.toFloat == 0.0) then ["division by zero"] else []

/-- What is wrong at a node. -/
def Arithmetic.Node.errors [Regex.Library] [Machine] (r : Record) : Node → List String
  | .operand operation e => (e.eval r).operandErrors operation
  | .division e => (e.eval r).divisorErrors

/-! ## Operands -/

/-- Just the two zeros compare as equal to zero. -/
theorem Double.toFloat_beq_zero_iff {x : Double} :
    (x.toFloat == 0.0) = true ↔ x = .ofFloat 0.0 ∨ x = .ofFloat (-0.0) := by
  have hback : ∀ z : Float, Number.Value.ofFloat z ≠ .notANumber →
      (x.toFloat = z ↔ x = .ofFloat z) := by
    intro z hz
    constructor
    · rintro rfl
      exact (Double.ofFloat_toFloat (Double.value_toFloat x ▸ hz)).symm
    · rintro rfl
      exact Double.toFloat_ofFloat z
  rw [Number.beq_zero_iff, hback 0.0 (by decide +kernel), hback (-0.0) (by decide +kernel)]

namespace Field

/-- A number that could not be computed. -/
def CarriesErrors (f : Field) : Prop := ∃ errors, errors ≠ [] ∧ f = .mk (.number .notANumber) errors

/-- The number that could not be computed, if there are errors. -/
def ofErrors : List String → List Field
  | [] => []
  | e :: errors => [.mk (.number .notANumber) (e :: errors)]

/-- Without errors there is no number that carries them. -/
theorem head?_ofErrors_eq_none_iff {errors : List String} :
    (ofErrors errors).head? = none ↔ errors = [] := by
  cases errors with
  | nil => exact iff_of_true rfl rfl
  | cons e errors => exact iff_of_false nofun nofun

/-- Errors are carried by what is no number. -/
theorem head?_ofErrors_eq_some_iff {errors : List String} {f : Field} :
    (ofErrors errors).head? = some f ↔ errors ≠ [] ∧ f = .mk (.number .notANumber) errors := by
  cases errors with
  | nil => exact iff_of_false nofun fun h => h.1 rfl
  | cons e errors =>
    rw [ofErrors, List.head?_cons, Option.some_inj, eq_comm]
    exact (and_iff_right (List.cons_ne_nil _ _)).symm

/-- An operand counts if it carries no errors and is a number. -/
theorem operand_eq_ok_iff {operation : String} {f : Field} {x : Double} :
    f.operand operation = .ok x ↔ f.errors = [] ∧ f.asNumber? = some x := by
  unfold operand isValid
  split
  · next h => simp_all
  · next h =>
    rcases hx : f.asNumber? with _ | y
    · refine iff_of_false ?_ nofun
      dsimp only
      split <;> exact nofun
    · simp_all

/-- What an operand that is no number gives. -/
theorem carriesErrors_of_operand {operation : String} {f g : Field}
    (h : f.operand operation = .error g) : g.CarriesErrors := by
  unfold operand isValid at h
  split at h
  · next hinvalid =>
    rw [← Except.error.inj h]
    exact ⟨f.errors, by simpa using hinvalid, rfl⟩
  · split at h
    · cases h
    · split at h <;>
      · rw [← Except.error.inj h]
        exact ⟨_, List.cons_ne_nil _ _, rfl⟩

/-- A number that could not be computed is as an operand what it is. -/
theorem CarriesErrors.operand {f : Field} (h : f.CarriesErrors) (operation : String) :
    f.operand operation = .error f := by
  obtain ⟨errors, herrors, rfl⟩ := h
  unfold Field.operand isValid
  rw [if_pos (by simpa [Field.errors] using herrors)]
  rfl

/-- What came of a computation is as an operand what came of it as an operand. -/
theorem operand_merge {m : Except Field Field} (h : ∀ f, m = .error f → f.CarriesErrors)
    (operation : String) : (merge m).operand operation = m >>= fun f => f.operand operation := by
  cases m with
  | error f => exact (h f rfl).operand operation
  | ok f => rfl

/-- A number counts as itself. -/
theorem operand_number (operation : String) (x : Double) :
    (number x).operand operation = .ok x := rfl

/-- An operand fails with what is wrong with it. -/
theorem failsFirst_operand (operation : String) (f : Field) :
    FailsFirst (f.operand operation) (ofErrors (f.operandErrors operation)) := by
  unfold operand operandErrors isValid
  by_cases herrors : f.errors = []
  · have hvalid : ¬ (!f.errors.isEmpty) = true := by simp [herrors]
    rw [if_neg hvalid, if_neg (not_not.2 herrors)]
    rcases f.asNumber? with _ | x
    · cases f.isNull <;> exact FailsFirst.error _
    · exact FailsFirst.ok x
  · rw [if_pos (by simpa using herrors), if_pos herrors]
    obtain ⟨e, errors, hcons⟩ := List.exists_cons_of_ne_nil herrors
    rw [hcons]
    exact FailsFirst.error _

/-- A quotient fails if its divisor is zero. -/
theorem failsFirst_quotient [Machine] {f : Field} {x y : Double} (h : f.asNumber? = some y)
    (operation : String) :
    FailsFirst ((quotient x y).operand operation) (ofErrors f.divisorErrors) := by
  unfold divisorErrors quotient
  rw [h, Option.any_some]
  by_cases hzero : (y.toFloat == 0.0) = true
  · rw [if_pos hzero, if_pos hzero]
    exact FailsFirst.error _
  · rw [if_neg hzero, if_neg hzero]
    exact FailsFirst.ok _

/-- Nothing is wrong with an operand that is valid and counts as a number. -/
theorem operandErrors_eq_nil_iff {operation : String} {f : Field} :
    f.operandErrors operation = [] ↔ f.isValid = true ∧ ∃ x, f.asNumber? = some x := by
  unfold operandErrors isValid
  by_cases herrors : f.errors = []
  · rw [if_neg (by simp [herrors]), herrors]
    rcases f.asNumber? with _ | x
    · cases f.isNull <;> simp
    · simp
  · rw [if_pos herrors]
    simp [herrors]

/-- Nothing is wrong with a divisor unless it counts as one of the two zeros. -/
theorem divisorErrors_eq_nil_iff {f : Field} :
    f.divisorErrors = [] ↔ ∀ x, f.asNumber? = some x → x ≠ .ofFloat 0.0 ∧ x ≠ .ofFloat (-0.0) := by
  unfold divisorErrors
  rcases f.asNumber? with _ | x
  · simp
  · rw [Option.any_some]
    by_cases hzero : (x.toFloat == 0.0) = true
    · rw [if_pos hzero]
      refine iff_of_false (List.cons_ne_nil _ _) fun h => ?_
      obtain ⟨hpos, hneg⟩ := h x rfl
      exact (Double.toFloat_beq_zero_iff.1 hzero).elim hpos hneg
    · rw [if_neg hzero]
      refine iff_of_true rfl fun y hy => ?_
      rw [← Option.some.inj hy]
      exact not_or.1 (mt Double.toFloat_beq_zero_iff.2 hzero)

end Field

/-! ## Evaluation -/

namespace Arithmetic

variable {r : Record}

/-- An operation on one number takes its operand, or what went wrong there. -/
theorem eval_unary [Regex.Library] [Machine] (r : Record) (op : Unary) (x : Arithmetic) :
    (unary op x).expr.eval r =
    Field.merge ((x.expr.eval r).operand op.text >>= fun n => .ok (.number (op.compute n))) := by
  have hmap : ∀ m : Except Field Double, m.map (fun n => Field.number (op.compute n)) =
      m >>= fun n => .ok (.number (op.compute n)) := fun m => rfl
  rw [← hmap]
  cases op <;> simp [expr, Unary.on, Expr.eval, Expr.evalAll, Function.apply] <;> rfl

/-- An operation on two numbers takes its operands in turn, or what went wrong first. -/
theorem eval_binary [Regex.Library] [Machine] (r : Record) (op : Binary) (x y : Arithmetic) :
    (binary op x y).expr.eval r =
    Field.merge ((x.expr.eval r).operand op.operator.text >>= fun a =>
      (y.expr.eval r).operand op.operator.text >>= fun b => .ok (op.compute a b)) := by
  rw [expr, Expr.eval]
  cases op <;> rfl

/-- What goes wrong at the only operand is carried by what is no number. -/
theorem carriesErrors_unary [Machine] {op : Unary} {x : Field} {f : Field}
    (h : (x.operand op.text >>= fun n => .ok (Field.number (op.compute n))) = .error f) :
    f.CarriesErrors := by
  rcases bind_eq_error.1 h with h | ⟨n, -, h⟩
  · exact Field.carriesErrors_of_operand h
  · cases h

/-- What goes wrong at one of two operands is carried by what is no number. -/
theorem carriesErrors_binary [Machine] {op : Binary} {x y : Field} {f : Field}
    (h : (x.operand op.operator.text >>= fun a => y.operand op.operator.text >>= fun b =>
      .ok (op.compute a b)) = .error f) : f.CarriesErrors := by
  rcases bind_eq_error.1 h with h | ⟨a, -, h⟩
  · exact Field.carriesErrors_of_operand h
  · rcases bind_eq_error.1 h with h | ⟨b, -, h⟩
    · exact Field.carriesErrors_of_operand h
    · cases h

/-- An operand fails with the first error of its nodes. -/
theorem failsFirst_operand [Regex.Library] [Machine] (r : Record) (t : Arithmetic)
    (operation : String) :
    FailsFirst ((t.expr.eval r).operand operation)
      ((t.operandNodes operation).flatMap fun n => Field.ofErrors (n.errors r)) := by
  induction t generalizing operation with
  | leaf e =>
    rw [operandNodes, List.flatMap_singleton]
    exact Field.failsFirst_operand operation (e.eval r)
  | unary op x ih =>
    rw [eval_unary, Field.operand_merge fun f hf => carriesErrors_unary hf, operandNodes]
    have hbind : ((x.expr.eval r).operand op.text >>= fun n => .ok (Field.number (op.compute n))) >>=
        (fun f => f.operand operation) =
        (x.expr.eval r).operand op.text >>= fun n => .ok (op.compute n) := by
      rw [bind_assoc]
      rfl
    rw [hbind]
    exact (ih op.text).map op.compute
  | binary op x y ihx ihy =>
    rw [eval_binary, Field.operand_merge fun f hf => carriesErrors_binary hf, operandNodes,
      List.flatMap_append, List.flatMap_append, List.append_assoc]
    have hbind : ((x.expr.eval r).operand op.operator.text >>= fun a =>
        (y.expr.eval r).operand op.operator.text >>= fun b => .ok (op.compute a b)) >>=
        (fun f => f.operand operation) =
        (x.expr.eval r).operand op.operator.text >>= fun a =>
          (y.expr.eval r).operand op.operator.text >>= fun b => (op.compute a b).operand operation := by
      rw [bind_assoc]
      congr 1
      funext a
      rw [bind_assoc]
      rfl
    rw [hbind]
    apply (ihx op.operator.text).bind
    intro a _
    apply (ihy op.operator.text).bind
    intro b hb
    by_cases hop : op = .div
    · subst hop
      rw [if_pos rfl, List.flatMap_singleton]
      exact Field.failsFirst_quotient (Field.operand_eq_ok_iff.1 hb).2 operation
    · rw [if_neg hop]
      cases op with
      | div => exact absurd rfl hop
      | _ => exact FailsFirst.ok _

/-- An operation gives a number, or one that could not be computed. -/
theorem number_or_carriesErrors [Regex.Library] [Machine] (r : Record) {t : Arithmetic}
    (h : ∀ e, t ≠ leaf e) :
    (∃ x, t.expr.eval r = Field.number x) ∨ (t.expr.eval r).CarriesErrors := by
  cases t with
  | leaf e => exact absurd rfl (h e)
  | unary op x =>
    rw [eval_unary]
    cases hm : (x.expr.eval r).operand op.text >>= fun n => .ok (Field.number (op.compute n)) with
    | error f => exact .inr (carriesErrors_unary hm)
    | ok f =>
      obtain ⟨n, -, hf⟩ := bind_eq_ok.1 hm
      exact .inl ⟨_, (Except.ok.inj hf).symm⟩
  | binary op x y =>
    rw [eval_binary]
    cases hm : (x.expr.eval r).operand op.operator.text >>= fun a =>
      (y.expr.eval r).operand op.operator.text >>= fun b => .ok (op.compute a b) with
    | error f => exact .inr (carriesErrors_binary hm)
    | ok f =>
      obtain ⟨a, -, hf⟩ := bind_eq_ok.1 hm
      obtain ⟨b, -, hf⟩ := bind_eq_ok.1 hf
      rw [← Except.ok.inj hf]
      cases op with
      | div =>
        show (∃ x, Field.quotient a b = _) ∨ (Field.quotient a b).CarriesErrors
        unfold Field.quotient
        split
        · exact .inr ⟨_, List.cons_ne_nil _ _, rfl⟩
        · exact .inl ⟨_, rfl⟩
      | _ => exact .inl ⟨_, rfl⟩

/-- The nodes of an operation are those that it has as an operand, whatever it is an operand of. -/
theorem nodes_eq {t : Arithmetic} (h : ∀ e, t ≠ leaf e) : t.nodes = t.operandNodes "" := by
  cases t with
  | leaf e => exact absurd rfl (h e)
  | _ => rfl

/-- An operation gives a number if nothing is wrong at its nodes, else the errors of the first node at
which something is. -/
theorem number_or_first_error [Regex.Library] [Machine] (r : Record) {t : Arithmetic}
    (h : ∀ e, t ≠ leaf e) :
    (∃ x, t.expr.eval r = Field.number x) ∧ (∀ n ∈ t.nodes, n.errors r = []) ∨
    ∃ before node after, t.nodes = before ++ node :: after ∧ (∀ n ∈ before, n.errors r = []) ∧
      node.errors r ≠ [] ∧ t.expr.eval r = .mk (.number .notANumber) (node.errors r) := by
  have hfirst := failsFirst_operand r t ""
  rw [← nodes_eq h] at hfirst
  rcases number_or_carriesErrors r h with ⟨x, hx⟩ | hcarries
  · have hnone := hfirst.faults_eq_nil (hx ▸ Field.operand_number "" x)
    refine .inl ⟨⟨x, hx⟩, fun n hn => ?_⟩
    apply Field.head?_ofErrors_eq_none_iff.1
    rw [List.flatMap_eq_nil_iff.1 hnone n hn]
    rfl
  · have hhead := (hfirst _).1 (hcarries.operand "")
    rw [List.head?_flatMap] at hhead
    obtain ⟨before, node, after, hsplit, hnode, hbefore⟩ := List.findSome?_eq_some_iff.1 hhead
    obtain ⟨hne, hf⟩ := Field.head?_ofErrors_eq_some_iff.1 hnode
    exact .inr ⟨before, node, after, hsplit,
      fun n hn => Field.head?_ofErrors_eq_none_iff.1 (hbefore n hn), hne, hf⟩

/-- Arithmetic keeps its errors. It gives a number, which is valid if and only if each leaf is valid and
counts as a number and no divisor counts as a zero; and if it is not, it is no number and has the errors
of the first node, in the order of evaluation, at which something is wrong. -/
theorem keeps_first_error [Regex.Library] [Machine] (r : Record) {t : Arithmetic}
    (h : ∀ e, t ≠ .leaf e) :
    let f := t.expr.eval r
    (∃ x, f.value = .number x) ∧
    (f.isValid = true ↔
      (∀ operation e, Node.operand operation e ∈ t.nodes →
        (e.eval r).isValid = true ∧ ∃ x, (e.eval r).asNumber? = some x) ∧
      ∀ e, Node.division e ∈ t.nodes → ∀ x, (e.eval r).asNumber? = some x →
        x ≠ .ofFloat 0.0 ∧ x ≠ .ofFloat (-0.0)) ∧
    (f.isValid = false → ∃ before node after, t.nodes = before ++ node :: after ∧
      (∀ n ∈ before, n.errors r = []) ∧ node.errors r ≠ [] ∧
      ∃ x, x.isNaN = true ∧ f = .mk (.number x) (node.errors r)) := by
  intro f
  have hnodes : (∀ n ∈ t.nodes, n.errors r = []) ↔
      (∀ operation e, Node.operand operation e ∈ t.nodes →
        (e.eval r).isValid = true ∧ ∃ x, (e.eval r).asNumber? = some x) ∧
      ∀ e, Node.division e ∈ t.nodes → ∀ x, (e.eval r).asNumber? = some x →
        x ≠ .ofFloat 0.0 ∧ x ≠ .ofFloat (-0.0) := by
    constructor
    · intro hall
      exact ⟨fun operation e he => Field.operandErrors_eq_nil_iff.1 (hall _ he),
        fun e he => Field.divisorErrors_eq_nil_iff.1 (hall _ he)⟩
    · rintro ⟨hleaves, hdivisors⟩ n hn
      cases n with
      | operand operation e => exact Field.operandErrors_eq_nil_iff.2 (hleaves operation e hn)
      | division e => exact Field.divisorErrors_eq_nil_iff.2 (hdivisors e hn)
  rw [← hnodes]
  rcases number_or_first_error r h with ⟨⟨x, hx⟩, hall⟩ | ⟨before, node, after, hsplit, hbefore, hne, hf⟩
  · have hvalid : f.isValid = true := (congrArg Field.isValid hx).trans rfl
    refine ⟨⟨x, congrArg Field.value hx⟩, iff_of_true hvalid hall, fun hinvalid => ?_⟩
    rw [hvalid] at hinvalid
    cases hinvalid
  · have hinvalid : f.isValid = false :=
      (congrArg Field.isValid hf).trans (List.isEmpty_eq_false_iff.2 hne)
    refine ⟨⟨_, congrArg Field.value hf⟩, iff_of_false (by simp [hinvalid]) fun hall => ?_, fun _ => ?_⟩
    · exact hne (hall node (hsplit ▸ List.mem_append_right _ List.mem_cons_self))
    · exact ⟨before, node, after, hsplit, hbefore, hne, _, Double.isNaN_notANumber, hf⟩

attribute [local instance] Regex.standard Machine.stopping

/-- The division by a zero with a sign comes before the factor that is a text. -/
theorem negative_zero_before_text :
    let r : Record := (((Record.ofMessage "").set "host" (.string "web-1")).set "latency"
      (.string "35")).set "status" (.number (.ofFloat 503.0))
    let t := binary .add (unary .negate (leaf (.column "latency")))
      (binary .mul (binary .div (leaf (.column "status")) (leaf (.literal (.number (-0.0)))))
        (leaf (.column "host")))
    (∀ e, t ≠ .leaf e) ∧ ∃ x, x.isNaN = true ∧ t.expr.eval r = .mk (.number x) ["division by zero"] := by
  intro r t
  have hoperation : ∀ e, t ≠ .leaf e := nofun
  obtain ⟨-, -, hfirst⟩ := keeps_first_error r hoperation
  obtain ⟨-, node, -, -, -, -, x, hx, heval⟩ := hfirst rfl
  have herrors : ["division by zero"] = node.errors r := congrArg Field.errors heval
  exact ⟨hoperation, x, hx, heval.trans (congrArg (Field.mk (.number x)) herrors.symm)⟩

end Arithmetic

end LogSearch
