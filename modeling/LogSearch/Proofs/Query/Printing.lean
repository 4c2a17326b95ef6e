import LogSearch.Proofs.Query.RoundTrip
import LogSearch.Regex.Program

/-!
# Expressions read back

The text of an expression has parentheses only where `Expr.level` asks for them, and the grammar
has a production of its own for each level. Printed after `where`, an expression comes back as the
tree that it was.

* `Expr.Printable`: the trees that a condition can be, told by their names, numbers, lists and calls.
* `Expr.printable_iff`: they are the well-formed trees of finite numbers.
* `where_reads_back_iff`: they are the trees that are read back.
-/

namespace LogSearch

open LogSearch.Query Number

variable {e : Expr} {name : String} {x : Float}

/-! ## Printable trees -/

/-- A name that is read after `where` as one identifier: one word, no keyword and no number. -/
def IsIdentifier (name : String) : Prop :=
  (tokenize ("| where " ++ name)).faults = [] ∧
    (tokenize ("| where " ++ name)).tokens.map Token.kind =
      [.symbol .pipe, .command .filter, .word name, .endOfInput]

instance : DecidablePred IsIdentifier := fun name =>
  inferInstanceAs (Decidable (_ = [] ∧ (tokenize ("| where " ++ name)).tokens.map Token.kind = _))

/-- A finite number whose sign bit is clear. -/
def IsUnsigned (x : Float) : Prop := isFinite x = true ∧ x.toBits.toNat < signBit

instance : DecidablePred IsUnsigned := fun x =>
  inferInstanceAs (Decidable (isFinite x = true ∧ x.toBits.toNat < signBit))

/-- A constant whose number, if it is one, is finite and has no sign. -/
def Literal.Unsigned : Literal → Prop
  | number x => IsUnsigned x
  | _ => True

/-- Trees of identifiers and finite numbers. Numbers have a sign in lists only, no list is empty,
calls have as many arguments as their functions take, and constant patterns compile. -/
inductive Expr.Printable [Regex.Library] : Expr → Prop
  | literal {l : Literal} : l.Unsigned → Printable (.literal l)
  | column {name : String} : IsIdentifier name → Printable (.column name)
  | not {e : Expr} : Printable e → Printable (.not e)
  | negate {e : Expr} : Printable e → Printable (.negate e)
  | binary {op : BinaryOp} {l r : Expr} : Printable l → Printable r → Printable (.binary op l r)
  | member {e : Expr} {list : List Literal} :
      Printable e → list ≠ [] → (∀ l ∈ list, l.Finite) → Printable (.member e list)
  | call {f : Function} {args : List Expr} :
      f.takes args.length = true →
      (∀ subject pattern, f = .matchesPattern → args = [subject, .literal (.string pattern)] →
        Compiles pattern) →
      (∀ a ∈ args, Printable a) → Printable (.call f args)

/-! ## Conditions -/

/-- The query of one `where` stage. -/
def Query.ofCondition (e : Expr) : Query := ⟨[], none, [.filter e]⟩

/-- A query of a condition is written as its stage. -/
theorem Query.text_ofCondition (e : Expr) : (Query.ofCondition e).text = "| where " ++ e.text := by
  rw [← String.toList_inj]
  simp [Query.text, Query.ofCondition, Stage.text, Stage.name, Stage.body, Text.join]

/-- A query of a condition is well formed if the condition is. -/
theorem Query.wellFormed_ofCondition [Regex.Library] :
    (Query.ofCondition e).WellFormed ↔ e.WellFormed (.command .filter) := by
  constructor
  · exact fun h => h.pipeline (.filter e) (by simp [ofCondition])
  · exact fun h => ⟨by simp [ofCondition], by simp [ofCondition],
      by simpa [ofCondition, Stage.WellFormed] using h⟩

/-- A query of a condition has no comments. -/
theorem Query.noComments_ofCondition (e : Expr) : (Query.ofCondition e).NoComments :=
  ⟨by simp [ofCondition], by simp [ofCondition], by simp [ofCondition, Stage.NoComments]⟩

/-- A query of a condition is faithful if the numbers of the condition are finite. -/
theorem Query.faithful_ofCondition : (Query.ofCondition e).Faithful ↔ e.Finite := by
  constructor
  · exact fun h => h.numbers (.filter e) (by simp [ofCondition])
  · exact fun h => ⟨by simp [ofCondition], noComments_ofCondition e,
      by simpa [ofCondition, Stage.Finite] using h⟩

/-! ## Identifiers -/

/-- The last kind of token is the end of input. -/
theorem kinds_tokenize (text : String) : (tokenize text).tokens.map Token.kind =
    (tokensBeforeEnd (tokenize text).tokens).map Token.kind ++ [.endOfInput] := by
  rw [tokensBeforeEnd_tokenize]
  simp [tokenize, lexemes]

/-- The same of the spelled tokens. -/
theorem isIdentifier_iff : IsIdentifier name ↔
    ∃ ks, spelled? .initial ("| where " ++ name).toList = some ks ∧
      ks.map Prod.fst = [.symbol .pipe, .command .filter, .word name] := by
  have hkinds : ((tokensBeforeEnd (tokenize ("| where " ++ name)).tokens).map Token.spelling).map
      Prod.fst = (tokensBeforeEnd (tokenize ("| where " ++ name)).tokens).map Token.kind := by
    simp [Token.spelling]
  rw [IsIdentifier, kinds_tokenize, spelled?_tokenize, ← hkinds,
    show ∀ k : TokenKind, [TokenKind.symbol .pipe, .command .filter, k, .endOfInput] =
      [.symbol .pipe, .command .filter, k] ++ [.endOfInput] from fun _ => rfl,
    List.append_left_inj]
  split <;> simp [*]

/-- An identifier is a name of a condition. -/
theorem IsIdentifier.isName (h : IsIdentifier name) : IsName (.command .filter) name := by
  obtain ⟨ks, hs, hks⟩ := isIdentifier_iff.1 h
  obtain ⟨p, rest, rfl, hp, hrest⟩ := List.map_eq_cons_iff.1 hks
  obtain ⟨c, rest, rfl, hc, hrest⟩ := List.map_eq_cons_iff.1 hrest
  obtain ⟨w, rest, rfl, hw, -⟩ := List.map_eq_cons_iff.1 hrest
  obtain ⟨-, -, hfit, -⟩ := allFit_spelled hs
  simp only [Fits, hp, hc, hw] at hfit
  obtain ⟨hword, hkind⟩ := hfit
  obtain rfl : name = w.2 := by simpa using eq_of_wordKind_word hkind
  exact ⟨hword, hkind⟩

/-- A name of a condition is an identifier. -/
theorem IsName.isIdentifier [Regex.Library] (h : IsName (.command .filter) name) :
    IsIdentifier name := by
  have hw : (Query.ofCondition (.column name)).WellFormed := Query.wellFormed_ofCondition.2 h
  have hs := Query.spelled?_text hw (by simp [Query.ofCondition]) (Query.noComments_ofCondition _)
  rw [Query.text_ofCondition, Expr.text] at hs
  refine isIdentifier_iff.2 ⟨_, hs, ?_⟩
  have hstage : (Stage.filter (.column name)).WellFormed := h
  simp [Query.layout, Query.ofCondition, blankLayout, Stage.spellings_layout hstage,
    Stage.bodyLayout, Stage.command, Expr.layout, Item.spelling?, Item.kind?, h.kind]

/-! ## Numbers -/

/-- The sign of a double is its first bit. -/
theorem negative_of_ofFloat {v : Number.Finite} (h : Value.ofFloat x = .finite v) :
    v.negative = decide (signBit ≤ x.toBits.toNat) := by
  unfold Value.ofFloat Value.ofBits at h
  dsimp only at h
  split at h
  · split at h <;> simp at h
  · split at h <;> (obtain rfl := Value.finite.inj h; rfl)

/-- A number without a sign has a clear sign bit. -/
theorem isUnsigned_iff :
    IsUnsigned x ↔ ∃ v, Value.ofFloat x = .finite v ∧ v.negative = false := by
  constructor
  · rintro ⟨hf, hs⟩
    unfold isFinite at hf
    split at hf
    next v hx => exact ⟨v, hx, by simpa [negative_of_ofFloat hx] using hs⟩
    next => simp at hf
  · rintro ⟨v, hx, hs⟩
    exact ⟨by simp [isFinite, hx], by simpa [negative_of_ofFloat hx] using hs⟩

/-- A finite number that can be written has no sign. -/
theorem IsNumber.isUnsigned (h : IsNumber x) (hf : isFinite x = true) : IsUnsigned x := by
  rcases h.ofFloat with hx | hx
  · simp [isFinite, hx] at hf
  · exact isUnsigned_iff.2 hx

/-- Its own text is a numeral of it. -/
theorem IsUnsigned.isNumber (h : IsUnsigned x) : IsNumber x := by
  obtain ⟨v, hx, hs⟩ := isUnsigned_iff.1 h
  obtain ⟨whole, fraction, hne, hwhole, hfraction, -, hvalue⟩ := exists_numeral_of_plainText hx hs
  exact ⟨_, isNumeral_numeral hne hwhole hfraction,
    (numeralValue_numeral hne hwhole hfraction).trans hvalue⟩

/-- The negative of the negative of a double is that double. -/
theorem neg_neg_of_finite {v : Number.Finite} (hx : Value.ofFloat x = .finite v) : - -x = x :=
  eq_of_ofFloat (v := v) (by rw [ofFloat_neg, ofFloat_neg, hx]; simp [Value.neg]) hx

/-- A finite constant is well formed in lists. -/
theorem Literal.Finite.wellFormedMember {l : Literal} (h : l.Finite) : l.WellFormedMember := by
  cases l with
  | number x =>
    cases hx : Value.ofFloat x with
    | finite v =>
      cases hs : v.negative with
      | false => exact .inl (isUnsigned_iff.2 ⟨v, hx, hs⟩).isNumber
      | true =>
        have hneg : IsUnsigned (-x) :=
          isUnsigned_iff.2 ⟨_, by rw [ofFloat_neg, hx]; rfl, by simp [hs]⟩
        exact .inr ⟨-x, hneg.isNumber, (neg_neg_of_finite hx).symm⟩
    | _ => simp [Literal.Finite, isFinite, hx] at h
  | _ => trivial

/-- A well-formed finite constant has no sign. -/
theorem Literal.WellFormed.unsigned {l : Literal} (h : l.WellFormed) (hf : l.Finite) :
    l.Unsigned := by
  cases l with
  | number x => exact IsNumber.isUnsigned h hf
  | _ => trivial

/-- A constant without a sign is well formed. -/
theorem Literal.Unsigned.wellFormed {l : Literal} (h : l.Unsigned) : l.WellFormed := by
  cases l with
  | number x => exact IsUnsigned.isNumber h
  | _ => trivial

/-- A constant without a sign is finite. -/
theorem Literal.Unsigned.finite {l : Literal} (h : l.Unsigned) : l.Finite := by
  cases l with
  | number x => exact h.1
  | _ => trivial

/-! ## Trees -/

/-- Arguments are well formed if each is. -/
theorem wellFormedArguments_of_forall [Regex.Library] {s : Segment} {args : List Expr}
    (h : ∀ a ∈ args, a.WellFormed s) : WellFormedArguments s args := by
  induction args with
  | nil => trivial
  | cons a args ih => exact ⟨h a (by simp), ih fun b hb => h b (by simp [hb])⟩

/-- Arguments are finite if each is. -/
theorem finiteArguments_of_forall {args : List Expr} (h : ∀ a ∈ args, a.Finite) :
    FiniteArguments args := by
  induction args with
  | nil => trivial
  | cons a args ih => exact ⟨h a (by simp), ih fun b hb => h b (by simp [hb])⟩

/-- A call fulfils what it must if the number of its arguments fits and its constant pattern
compiles. -/
theorem callFits_iff [Regex.Library] {f : Function} {args : List Expr} :
    CallFits f args ↔ f.takes args.length = true ∧
      ∀ subject pattern, f = .matchesPattern → args = [subject, .literal (.string pattern)] →
        Compiles pattern := by
  constructor
  · rintro ⟨hcount, hpattern⟩
    refine ⟨hcount, ?_⟩
    rintro subject pattern rfl rfl
    exact hpattern rfl
  · rintro ⟨hcount, hpattern⟩
    refine ⟨hcount, fun {pattern} h => ?_⟩
    unfold Parser.constantPattern? at h
    split at h
    next subject text rest =>
      obtain rfl : text = pattern := by simpa using h
      -- a match takes two arguments, so nothing follows its pattern
      obtain rfl : rest = [] := by
        have : rest.length = 0 := by simpa [Function.takes, Function.arity] using hcount
        exact List.length_eq_zero_iff.1 this
      exact hpattern subject text rfl rfl
    next => simp at h

/-- A printable tree is well formed. -/
theorem Expr.Printable.wellFormed [Regex.Library] (h : e.Printable) : e.WellFormed
    (.command .filter) := by
  induction h with
  | literal hl => exact hl.wellFormed
  | column hname => exact hname.isName
  | not _ ih => exact ih
  | negate _ ih => exact ih
  | binary _ _ hl hr => exact ⟨hl, hr⟩
  | member _ hne hlist ih => exact ⟨ih, hne, fun l hl => (hlist l hl).wellFormedMember⟩
  | call hcount hpattern _ ih =>
    exact ⟨callFits_iff.2 ⟨hcount, hpattern⟩, wellFormedArguments_of_forall ih⟩

/-- A printable tree is finite. -/
theorem Expr.Printable.finite [Regex.Library] (h : e.Printable) : e.Finite := by
  induction h with
  | literal hl => exact hl.finite
  | column _ => trivial
  | not _ ih => exact ih
  | negate _ ih => exact ih
  | binary _ _ hl hr => exact ⟨hl, hr⟩
  | member _ _ hlist ih => exact ⟨ih, hlist⟩
  | call _ _ _ ih => exact finiteArguments_of_forall ih

mutual
/-- A well-formed finite tree is printable. -/
theorem Expr.printable_of_wellFormed [Regex.Library] : (e : Expr) → e.WellFormed
    (.command .filter) → e.Finite →
    e.Printable
  | .literal _, h, hf => .literal (h.unsigned hf)
  | .column _, h, _ => .column (IsName.isIdentifier h)
  | .not e, h, hf => .not (e.printable_of_wellFormed h hf)
  | .negate e, h, hf => .negate (e.printable_of_wellFormed h hf)
  | .binary _ l r, h, hf =>
    .binary (l.printable_of_wellFormed h.1 hf.1) (r.printable_of_wellFormed h.2 hf.2)
  | .member e _, h, hf => .member (e.printable_of_wellFormed h.1 hf.1) h.2.1 hf.2
  | .call _ args, h, hf =>
    .call (callFits_iff.1 h.1).1 (callFits_iff.1 h.1).2 (printable_arguments args h.2 hf)

/-- Well-formed finite arguments are printable. -/
theorem printable_arguments [Regex.Library] : (args : List Expr) → WellFormedArguments
    (.command .filter) args →
    FiniteArguments args → ∀ a ∈ args, a.Printable
  | [], _, _ => by simp
  | a :: args, h, hf =>
    List.forall_mem_cons.2
      ⟨a.printable_of_wellFormed h.1 hf.1, printable_arguments args h.2 hf.2⟩
end

/-- Printable trees are the well-formed finite ones. -/
theorem Expr.printable_iff [Regex.Library] :
    e.Printable ↔ e.WellFormed (.command .filter) ∧ e.Finite :=
  ⟨fun h => ⟨h.wellFormed, h.finite⟩, fun h => e.printable_of_wellFormed h.1 h.2⟩

/-- A tree is read back, printed after `where`, exactly when it is printable. -/
theorem where_reads_back_iff [Regex.Library] (e : Expr) :
    (parse ("| where " ++ e.text)).problems = [] ∧
      (parse ("| where " ++ e.text)).query = ⟨[], none, [.filter e]⟩ ↔ e.Printable := by
  rw [← Query.text_ofCondition]
  change (Query.ofCondition e).ReadsBack ↔ _
  constructor
  · intro h
    have hw : (Query.ofCondition e).WellFormed := h.2 ▸ wellFormed_of_parse h.1
    exact Expr.printable_iff.2
      ⟨Query.wellFormed_ofCondition.1 hw, Query.faithful_ofCondition.1 (h.faithful hw)⟩
  · intro h
    exact (Query.faithful_ofCondition.2 h.finite).readsBack
      (Query.wellFormed_ofCondition.2 h.wellFormed)

attribute [local instance] Regex.standard

/-- `!(lower(host) in ["a\"b", -2.5] || match(path, "^/v[0-9]+")) && 8 - (n - --k) < (n + 0.5) * k` -/
theorem mixed_condition_reads_back :
    let inList : Expr := .member (.call .lower [.column "host"]) [.string "a\"b", .number (-2.5)]
    let matching : Expr := .call .matchesPattern [.column "path", .literal (.string "^/v[0-9]+")]
    let difference : Expr := .binary .sub (.literal (.number 8))
      (.binary .sub (.column "n") (.negate (.negate (.column "k"))))
    let product : Expr := .binary .mul (.binary .add (.column "n") (.literal (.number 0.5)))
      (.column "k")
    let e : Expr := .binary .and (.not (.binary .or inList matching))
      (.binary .less difference product)
    e.Printable ∧ (parse ("| where " ++ e.text)).problems = [] ∧
      (parse ("| where " ++ e.text)).query = ⟨[], none, [.filter e]⟩ := by
  intro inList matching difference product e
  have hhost : IsIdentifier "host" := by decide +kernel
  have hpath : IsIdentifier "path" := by decide +kernel
  have hn : (Expr.column "n").Printable := .column (by decide +kernel)
  have hk : (Expr.column "k").Printable := .column (by decide +kernel)
  have height : (Literal.number 8).Unsigned :=
    show IsUnsigned 8 by decide +kernel
  have hhalf : (Literal.number 0.5).Unsigned :=
    show IsUnsigned 0.5 by decide +kernel
  have hlist : inList.Printable := by
    refine .member (.call rfl (by simp) (by simpa using .column hhost)) (by simp) ?_
    simp only [List.forall_mem_cons, Literal.Finite]
    exact ⟨trivial, by decide +kernel, by simp⟩
  have hmatching : matching.Printable := by
    refine .call rfl ?_ ?_
    · rintro subject pattern - ⟨⟩
      exact show (Regex.compile "^/v[0-9]+").isOk = true by decide +kernel
    · simpa using ⟨.column hpath, .literal trivial⟩
  have hp : e.Printable :=
    .binary (.not (.binary hlist hmatching))
      (.binary (.binary (.literal height) (.binary hn (.negate (.negate hk))))
        (.binary (.binary hn (.literal hhalf)) hk))
  exact ⟨hp, (where_reads_back_iff e).2 hp⟩

end LogSearch
