import LogSearch.Proofs.Engine.Events
import LogSearch.Proofs.Query.Lookahead
import LogSearch.Proofs.Query.Relocation
import LogSearch.Proofs.Query.RoundTrip
import LogSearch.Regex.Program

/-!
# Gaps between tokens

The white space and the comments between two tokens can be replaced by others.

* `Padding`, `Filler`: white space and comments that end with their lines.
* `Gap`: a stretch of a text between two tokens that follow each other.
* `Gap.exists_lexemes`: the lexer passes over such a stretch.
* `Gap.spelled?_fill`: what fills a gap is no matter to the tokens.
* `layout_does_not_matter`: nor is it to the query, and to what the fetches of the query are shared
  by.
-/

namespace LogSearch.Query

open Text (isBlank byteLength)

/-! ## Fillers -/

/-- White space, and comments that stand behind white space and end with their line. -/
inductive Padding : List Char → Prop
  | nil : Padding []
  | blank {c : Char} {cs : List Char} : isBlank c = true → Padding cs → Padding (c :: cs)
  | comment {line cs : List Char} :
      '\n' ∉ line → Padding cs → Padding ('/' :: '/' :: line ++ '\n' :: cs)

/-- Padding that starts with white space. -/
inductive Filler : List Char → Prop
  | mk {c : Char} {cs : List Char} : isBlank c = true → Padding cs → Filler (c :: cs)

/-- A filler starts with white space, whatever follows. -/
theorem Filler.startsBlank {cs : List Char} (h : Filler cs) (rest : List Char) :
    StartsBlank (cs ++ rest) := by
  cases h with
  | @mk c cs hc _ => exact ⟨c, cs ++ rest, rfl, hc⟩

/-- White space leaves a place behind a blank. -/
theorem spelled?_isBlank {p : Place} {c : Char} (h : isBlank c = true) (rest : List Char) :
    spelled? p (c :: rest) = spelled? ⟨p.segment, true⟩ rest := by
  rw [spelled?_skipped (scan_eq_of_scans (.blank h)) (.inl rfl), List.take_zero, List.drop_zero]
  simp only [Place.after, List.getLast?_singleton, Option.all_some, h]

/-- A comment and its line end are passed over. -/
theorem spelled?_line {s : Segment} {line : List Char} (h : '\n' ∉ line) (rest : List Char) :
    spelled? ⟨s, true⟩ ('/' :: '/' :: line ++ '\n' :: rest) = spelled? ⟨s, true⟩ rest := by
  have hnot : '\n' ∉ '/' :: line := by simpa using h
  have hscan : scan ⟨s, true⟩ '/' ('/' :: line ++ '\n' :: rest) =
      ⟨.comment, ('/' :: line).length + 1⟩ := by
    rw [← commentLength_line hnot rest]
    exact scan_eq_of_scans (.comment rfl rfl)
  have htake : ('/' :: line ++ '\n' :: rest).take (('/' :: line).length + 1) =
      '/' :: line ++ ['\n'] := by
    rw [List.append_cons, List.take_left' (by simp)]
  have hdrop : ('/' :: line ++ '\n' :: rest).drop (('/' :: line).length + 1) = rest := by
    rw [List.append_cons, List.drop_left' (by simp)]
  have hlast : ('/' :: ('/' :: line ++ ['\n'])).getLast? = some '\n' := by
    rw [← List.cons_append, List.getLast?_concat]
  have hblank : isBlank '\n' = true := by decide
  rw [List.cons_append, spelled?_skipped hscan (.inr rfl), htake, hdrop]
  simp only [Place.after, hlast, Option.all_some, hblank]

/-- Padding is passed over. -/
theorem Padding.spelled?_append {cs : List Char} (h : Padding cs) (s : Segment)
    (rest : List Char) : spelled? ⟨s, true⟩ (cs ++ rest) = spelled? ⟨s, true⟩ rest := by
  induction h with
  | nil => rfl
  | blank hc _ ih => rw [List.cons_append, spelled?_isBlank hc, ih]
  | comment hnot _ ih =>
    rw [List.append_assoc]
    exact (spelled?_line hnot _).trans ih

/-- A filler is passed over. -/
theorem Filler.spelled?_append {cs : List Char} (h : Filler cs) (p : Place) (rest : List Char) :
    spelled? p (cs ++ rest) = spelled? ⟨p.segment, true⟩ rest := by
  cases h with
  | mk hc hcs => rw [List.cons_append, spelled?_isBlank hc, hcs.spelled?_append]

/-! ## Gaps -/

/-- A stretch of a text between two tokens that follow each other. -/
structure Gap (text : String) where
  before : String
  inside : String
  behind : String
  text_eq : text = before ++ inside ++ behind
  inside_ne : inside ≠ ""
  front : List Token
  left : Token
  right : Token
  back : List Token
  tokens_eq : (tokenize text).tokens = front ++ left :: right :: back
  stop_eq : left.span.stop = before.utf8ByteSize
  start_eq : right.span.start = (before ++ inside).utf8ByteSize

/-- The text with something else in the gap. -/
def Gap.fill {text : String} (g : Gap text) (filler : String) : String :=
  g.before ++ filler ++ g.behind

/-- Texts are cut at the same place if as many bytes stand before it. -/
theorem append_inj_of_byteLength {as bs cs ds : List Char} (h : as ++ bs = cs ++ ds)
    (hlen : byteLength as = byteLength cs) : as = cs ∧ bs = ds := by
  have hnil {es : List Char} (he : byteLength es = 0) : es = [] := by
    by_contra hne
    exact Nat.ne_of_gt (byteLength_pos hne) he
  obtain ⟨es, rfl, rfl⟩ | ⟨es, rfl, rfl⟩ := List.append_eq_append_iff.1 h
  · rw [Text.byteLength_append] at hlen
    rw [hnil (by omega : byteLength es = 0)]
    simp
  · rw [Text.byteLength_append] at hlen
    rw [hnil (by omega : byteLength es = 0)]
    simp

/-- A text is what stands before the gap, in it and behind it. -/
theorem Gap.toList_eq {text : String} (g : Gap text) :
    text.toList = g.before.toList ++ (g.inside.toList ++ g.behind.toList) := by
  have h := congrArg String.toList g.text_eq
  rwa [String.toList_append, String.toList_append, List.append_assoc] at h

/-- What a gap is to the lexer: lexemes that are passed over, behind one that is a token. -/
structure Gap.Between {text : String} (g : Gap text) (front : List Lexeme) (l : Lexeme)
    (mid back : List Lexeme) : Prop where
  lexemes : lexemes text.toList = front ++ [l] ++ (mid ++ back)
  token : l.token? = some g.left
  tokensOf : tokensOf mid = []
  before : texts (front ++ [l]) = g.before.toList
  inside : texts mid = g.inside.toList
  behind : texts back = g.behind.toList

/-- A token with others after it is one of a lexeme, with theirs behind it. -/
theorem tokensOf_append_endOfInput {text : String} {front back : List Token} {t : Token}
    (h : (tokenize text).tokens = front ++ t :: back) (hne : back ≠ []) :
    ∃ ls l more, Query.lexemes text.toList = ls ++ l :: more ∧ l.token? = some t ∧
      tokensOf more ++ [⟨.endOfInput, ⟨text.utf8ByteSize, text.utf8ByteSize⟩, ""⟩] = back := by
  obtain rfl | ⟨init, last, rfl⟩ := List.eq_nil_or_concat back
  · exact absurd rfl hne
  rw [tokens_tokenize, List.concat_eq_append, ← List.cons_append, ← List.append_assoc] at h
  obtain ⟨htokens, hlast⟩ := List.append_inj' h rfl
  obtain ⟨before, behind, hsplit, -, hbehind⟩ := List.filterMap_eq_append_iff.1 htokens
  obtain ⟨skipped, l, more, rfl, -, hl, hmore⟩ := List.filterMap_eq_cons_iff.1 hbehind
  refine ⟨before ++ skipped, l, more, by rw [hsplit, List.append_assoc], hl, ?_⟩
  rw [List.concat_eq_append, hlast, ← hmore]
  rfl

/-- Where lexemes are passed over, up to the next token or the end of the text. -/
theorem exists_next {text : String} {ls more : List Lexeme} {right : Token} {back : List Token}
    (h : Query.lexemes text.toList = ls ++ more)
    (hmore : tokensOf more ++ [⟨.endOfInput, ⟨text.utf8ByteSize, text.utf8ByteSize⟩, ""⟩] =
      right :: back) :
    ∃ mid behind, more = mid ++ behind ∧ tokensOf mid = [] ∧
      right.span.start = byteLength (texts (ls ++ mid)) := by
  have hlex := h ▸ lexes_lexemes text.toList
  cases htokens : tokensOf more with
  | nil =>
    rw [htokens] at hmore
    obtain ⟨rfl, -⟩ := List.cons.inj hmore
    refine ⟨more, [], (List.append_nil _).symm, htokens, ?_⟩
    rw [hlex.texts_eq, byteLength_toList]
  | cons t ts =>
    rw [htokens] at hmore
    obtain ⟨rfl, -⟩ := List.cons.inj hmore
    obtain ⟨mid, l, behind, rfl, hmid, hl, -⟩ := List.filterMap_eq_cons_iff.1 htokens
    refine ⟨mid, l :: behind, rfl, List.filterMap_eq_nil_iff.2 hmid, ?_⟩
    rw [← List.append_assoc] at hlex
    rw [(token?_eq_some hl).2.1, hlex.stop_eq, Nat.zero_add]

/-- A gap lies behind a lexeme that is a token, and its own lexemes are none. -/
theorem Gap.exists_lexemes {text : String} (g : Gap text) :
    ∃ front l mid back, g.Between front l mid back := by
  obtain ⟨front, l, more, hlexemes, hl, hmore⟩ := tokensOf_append_endOfInput g.tokens_eq (by simp)
  rw [List.append_cons] at hlexemes
  obtain ⟨mid, back, rfl, hmid, hstart⟩ := exists_next hlexemes hmore
  have hlex := hlexemes ▸ lexes_lexemes text.toList
  have hstop : g.left.span.stop = byteLength (texts (front ++ [l])) := by
    rw [List.append_assoc, List.singleton_append] at hlex
    rw [(token?_eq_some hl).2.1, hlex.stop_eq, Nat.zero_add]
    simp
  have htext : texts (front ++ [l]) ++ (texts mid ++ texts back) =
      g.before.toList ++ (g.inside.toList ++ g.behind.toList) := by
    rw [← texts_append, ← texts_append, hlex.texts_eq, g.toList_eq]
  have hbefore : byteLength (texts (front ++ [l])) = byteLength g.before.toList := by
    rw [byteLength_toList, ← g.stop_eq, hstop]
  obtain ⟨hfront, hrest⟩ := append_inj_of_byteLength htext hbefore
  have hinside : byteLength (texts mid) = byteLength g.inside.toList := by
    have hsum := g.start_eq
    rw [hstart, texts_append, Text.byteLength_append, hbefore, ← byteLength_toList,
      String.toList_append, Text.byteLength_append] at hsum
    omega
  obtain ⟨hmid', hback⟩ := append_inj_of_byteLength hrest hinside
  exact ⟨front, l, mid, back, hlexemes, hl, hmid, hfront, hmid', hback⟩

/-- Lexemes without tokens and faults are blanks and comments. -/
theorem blank_or_comment {ls : List Lexeme} (ht : tokensOf ls = []) (hf : faultsOf ls = []) :
    ∀ l ∈ ls, l.piece = .blank ∨ l.piece = .comment := by
  intro l hl
  have htoken := List.filterMap_eq_nil_iff.1 ht l hl
  have hfault := List.filterMap_eq_nil_iff.1 hf l hl
  obtain ⟨piece, start, text⟩ := l
  cases piece with
  | blank => exact .inl rfl
  | comment => exact .inr rfl
  | token kind => simp [Lexeme.token?] at htoken
  | fault f => simp [Lexeme.fault?] at hfault

/-- Blanks and comments leave the segment. -/
theorem segment_afterAll {p : Place} {ls : List Lexeme}
    (h : ∀ l ∈ ls, l.piece = .blank ∨ l.piece = .comment) :
    (p.afterAll ls).segment = p.segment := by
  induction ls generalizing p with
  | nil => rfl
  | cons l ls ih =>
    obtain ⟨hl, hls⟩ := List.forall_mem_cons.1 h
    rw [Place.afterAll_cons, ih hls]
    rcases hl with hl | hl <;> rw [hl] <;> rfl

namespace Gap.Between

variable {text : String} {g : Gap text} {front mid back : List Lexeme} {l : Lexeme}

/-- The lexemes of a text with a gap are those up to it, those in it and those behind it. -/
theorem lexes (h : g.Between front l mid back) :
    Lexes .initial 0 (texts (front ++ [l]) ++ (g.inside.toList ++ g.behind.toList))
      (front ++ [l] ++ (mid ++ back)) := by
  have hlex := lexes_lexemes text.toList
  have htext := hlex.texts_eq
  rw [h.lexemes] at hlex htext
  rw [← h.inside, ← h.behind, ← texts_append, ← texts_append, htext]
  exact hlex

/-- The lexemes of the gap, read from the place after the token on its left. -/
theorem lexes_inside (h : g.Between front l mid back) :
    Lexes (Place.initial.afterAll (front ++ [l])) (byteLength (texts (front ++ [l])))
      (g.inside.toList ++ g.behind.toList) (mid ++ back) := by
  obtain ⟨rest, hrest, hlex⟩ := h.lexes.of_append
  rw [List.append_cancel_left_eq] at hrest
  rw [hrest, Nat.zero_add] at *
  exact hlex

/-- Behind the token on the left nothing is a comment yet. -/
theorem not_fresh (h : g.Between front l mid back) :
    (Place.initial.afterAll (front ++ [l])).fresh = false := by
  have hlexemes := h.lexemes
  rw [List.append_assoc, List.singleton_append] at hlexemes
  obtain ⟨c, rest, n, -, hl, hscan⟩ := scans_of_lexemes hlexemes
  rw [(token?_eq_some h.token).1] at hl hscan
  rw [Place.afterAll_append, hl]
  exact hscan.not_fresh_after

/-- A gap has lexemes. -/
theorem mid_ne_nil (h : g.Between front l mid back) : mid ≠ [] := by
  rintro rfl
  have hnil : g.inside.toList = [] := h.inside.symm
  exact g.inside_ne (String.toList_eq_nil_iff.1 hnil)

/-- The gap starts with a blank, since no comment starts right behind a token. -/
theorem startsBlank (h : g.Between front l mid back)
    (hmid : ∀ m ∈ mid, m.piece = .blank ∨ m.piece = .comment) :
    StartsBlank (g.inside.toList ++ g.behind.toList) := by
  obtain ⟨m, mid, rfl⟩ := List.exists_cons_of_ne_nil h.mid_ne_nil
  obtain ⟨c, rest, n, htext, -, hscan⟩ := h.lexes_inside.head
  refine ⟨c, rest, htext, ?_⟩
  rcases hmid m List.mem_cons_self with hm | hm
  · rw [hm] at hscan
    cases hscan with
    | blank hc => exact hc
  · rw [hm] at hscan
    cases hscan with
    | comment hfresh => exact absurd (h.not_fresh.symm.trans hfresh) Bool.false_ne_true

/-- The gap ends with a blank or with the text, and leaves the segment as it is. -/
theorem afterAll_mid (h : g.Between front l mid back)
    (hmid : ∀ m ∈ mid, m.piece = .blank ∨ m.piece = .comment) (hback : g.behind.toList ≠ []) :
    (Place.initial.afterAll (front ++ [l])).afterAll mid =
      ⟨(Place.initial.afterAll (front ++ [l])).segment, true⟩ := by
  have hsegment := segment_afterAll (p := Place.initial.afterAll (front ++ [l])) hmid
  obtain rfl | ⟨init, m, rfl⟩ := List.eq_nil_or_concat mid
  · exact absurd rfl h.mid_ne_nil
  rw [List.concat_eq_append] at *
  have hlex := h.lexes_inside
  have hbehind := h.behind
  rw [List.append_assoc, List.singleton_append] at hlex
  obtain ⟨rest, -, hlex⟩ := hlex.of_append
  cases hlex with
  | @cons _ _ n c rest piece _ hscan hlex =>
  rw [hlex.texts_eq] at hbehind
  have hfresh : (((Place.initial.afterAll (front ++ [l])).afterAll init).after piece
      (c :: rest.take n)).fresh = true := by
    refine (fresh_of_scan (scan_eq_of_scans hscan) (hmid _
      (List.mem_append_right init (List.mem_singleton_self _)))).resolve_right ?_
    rwa [hbehind]
  rw [Place.afterAll_append] at hsegment ⊢
  rw [← hsegment, ← hfresh]
  rfl

/-- The text behind the gap is read alike behind the gap and behind a filler. -/
theorem spelled?_behind (h : g.Between front l mid back) (hf : faultsOf (mid ++ back) = []) :
    spelled? ⟨(Place.initial.afterAll (front ++ [l])).segment, true⟩ g.behind.toList =
      some ((Query.tokensOf back).map Token.spelling) := by
  obtain ⟨hfmid, hfback⟩ := faultsOf_append_eq_nil.1 hf
  have hmid := blank_or_comment h.tokensOf hfmid
  obtain ⟨rest, hrest, hlex⟩ := h.lexes_inside.of_append
  rw [h.inside, List.append_cancel_left_eq] at hrest
  rw [← hrest] at hlex
  by_cases hback : g.behind.toList = []
  · rw [hback] at hlex ⊢
    cases hlex
    rfl
  · rw [← h.afterAll_mid hmid hback]
    exact hlex.spelled?_eq hfback

end Gap.Between

/-- What fills a gap between two tokens is no matter to the tokens of the text. -/
theorem Gap.spelled?_fill {text : String} (g : Gap text) (hclean : (tokenize text).faults = [])
    {filler : String} (h : Filler filler.toList) :
    spelled? .initial (g.fill filler).toList = spelled? .initial text.toList := by
  obtain ⟨front, l, mid, back, hb⟩ := g.exists_lexemes
  have hf : faultsOf (front ++ [l] ++ (mid ++ back)) = [] := hb.lexemes ▸ hclean
  obtain ⟨hfront, hrest⟩ := faultsOf_append_eq_nil.1 hf
  have hmid := blank_or_comment hb.tokensOf (faultsOf_append_eq_nil.1 hrest).1
  have hfill : (g.fill filler).toList =
      texts (front ++ [l]) ++ (filler.toList ++ g.behind.toList) := by
    rw [hb.before, fill, String.toList_append, String.toList_append, List.append_assoc]
  have hall := (lexes_lexemes text.toList).spelled?_eq hclean
  rw [hall, hb.lexemes, hfill,
    hb.lexes.spelled?_replaced (hb.startsBlank hmid) (h.startsBlank _) hfront,
    h.spelled?_append, hb.spelled?_behind hrest, Option.map_some, ← List.map_append,
    tokensOf_append (front ++ [l]), tokensOf_append mid, hb.tokensOf, List.nil_append]

/-! ## Texts that are spelled alike -/

section

variable {text text' : String}

/-- A text that is spelled like one without faults has none, and spells the same tokens. -/
theorem faults_eq_nil_of_spelled (hclean : (tokenize text).faults = [])
    (h : spelled? .initial text'.toList = spelled? .initial text.toList) :
    (tokenize text').faults = [] ∧
      Respelled (tokensBeforeEnd (tokenize text').tokens)
        (tokensBeforeEnd (tokenize text).tokens) := by
  rw [spelled?_tokenize, spelled?_tokenize, if_pos hclean] at h
  split at h
  next hf => exact ⟨hf, respelled_iff.2 (Option.some.inj h)⟩
  next => simp at h

/-- The last token is the end of the text. -/
theorem tokenize_tokens (text : String) : (tokenize text).tokens =
    tokensBeforeEnd (tokenize text).tokens ++
      [⟨.endOfInput, ⟨text.utf8ByteSize, text.utf8ByteSize⟩, ""⟩] := by
  rw [tokensBeforeEnd_tokenize]
  exact tokens_tokenize text

/-- Texts that spell the same tokens spell the same up to their ends. -/
theorem map_spelling_tokenize
    (h : Respelled (tokensBeforeEnd (tokenize text').tokens)
      (tokensBeforeEnd (tokenize text).tokens)) :
    (tokenize text').tokens.map Token.spelling = (tokenize text).tokens.map Token.spelling := by
  rw [tokenize_tokens text', tokenize_tokens text, List.map_append, List.map_append,
    respelled_iff.1 h]
  rfl

/-- A text without problems means its query. -/
theorem parse?_of_problems [Regex.Library] (h : (parse text).problems = []) :
    parse? text = .ok (parse text).query := by
  simp [parse?, h]

/-- A text with problems means nothing but them. -/
theorem parse?_of_problem [Regex.Library] (h : (parse text).problems ≠ []) :
    parse? text = .error (parse text).problems := by
  simp [parse?, h]

/-- An engine accepts both texts with the same plan, or accepts neither. -/
theorem plan_eq_ok_iff [Regex.Library] [Machine] (hquery : (parse text').query = (parse text).query)
    (hproblems : (parse text').problems = [] ↔ (parse text).problems = []) (r : Registry)
    (config : EngineConfig) (profile : String) (options : QueryOptions) (now : Int) (p : Plan) :
    Engine.plan r config ⟨profile, text', options, now⟩ = .ok p ↔
      Engine.plan r config ⟨profile, text, options, now⟩ = .ok p := by
  by_cases h : (parse text).problems = []
  · have hsame : parse? text' = parse? text := by
      rw [parse?_of_problems h, parse?_of_problems (hproblems.2 h), hquery]
    simp only [Engine.plan, hsame]
  · have herror {text : String} (h : (parse text).problems ≠ []) :
        Engine.plan r config ⟨profile, text, options, now⟩ =
          .error (.parse (parse text).problems) := by
      simp only [Engine.plan, parse?_of_problem h]
      rfl
    rw [herror h, herror (mt hproblems.1 h)]
    simp

end

/-- Two texts that differ in nothing that is asked of them. -/
structure MeansTheSame [Regex.Library] [Machine] (text text' : String) : Prop where
  /-- They have the same tokens, up to their places, and nothing is at fault. -/
  faults : (tokenize text').faults = []
  spellings : (tokenize text').tokens.map Token.spelling = (tokenize text).tokens.map Token.spelling
  /-- They write the same query, and both or neither have a problem. -/
  query : (parse text').query = (parse text).query
  problems : (parse text').problems = [] ↔ (parse text).problems = []
  /-- For each range and each source they have the same identity in the cache. -/
  identity : ∀ range sources name,
    (Plan.mk (parse text').query range sources).identity name =
      (Plan.mk (parse text).query range sources).identity name
  /-- An engine accepts either with the same plan, which tells the identity for each source. -/
  plan : ∀ registry config profile options now plan,
    Engine.plan registry config ⟨profile, text', options, now⟩ = .ok plan ↔
      Engine.plan registry config ⟨profile, text, options, now⟩ = .ok plan

/-- What fills a gap between two tokens does not matter to a query. -/
theorem layout_does_not_matter [Regex.Library] [Machine] {text : String}
    (hclean : (tokenize text).faults = [])
    (g : Gap text) {filler : String} (hfiller : Filler filler.toList) :
    MeansTheSame text (g.fill filler) := by
  obtain ⟨hfaults, hspelled⟩ := faults_eq_nil_of_spelled hclean (g.spelled?_fill hclean hfiller)
  obtain ⟨hquery, hproblems⟩ := parseTokens_respelled hspelled
  have hquery : (parse (g.fill filler)).query = (parse text).query := hquery
  have hproblems : (parse (g.fill filler)).problems = [] ↔ (parse text).problems = [] := by
    rw [parse_problems_eq_nil, parse_problems_eq_nil, hproblems, hfaults, hclean]
  refine ⟨hfaults, map_spelling_tokenize hspelled, hquery, hproblems, fun _ _ _ => ?_,
    plan_eq_ok_iff hquery hproblems⟩
  rw [hquery]

/-- The gap between a term and the pipe after it. -/
def commentedGap : Gap "error // why\n| table a" where
  before := "error"
  inside := " // why\n"
  behind := "| table a"
  text_eq := by decide +kernel
  inside_ne := by decide +kernel
  front := []
  left := ⟨.word "error", ⟨0, 5⟩, "error"⟩
  right := ⟨.symbol .pipe, ⟨13, 14⟩, "|"⟩
  back := [⟨.command .table, ⟨15, 20⟩, "table"⟩, ⟨.word "a", ⟨21, 22⟩, "a"⟩,
    ⟨.endOfInput, ⟨22, 22⟩, ""⟩]
  tokens_eq := by decide +kernel
  stop_eq := by decide +kernel
  start_eq := by decide +kernel

attribute [local instance] Regex.standard Machine.stopping

/-- A line comment is as good as a blank. -/
theorem comment_does_not_matter :
    MeansTheSame "error // why\n| table a" "error | table a" := by
  have hclean : (tokenize "error // why\n| table a").faults = [] :=
    List.isEmpty_iff.1 (by decide +kernel)
  have hfiller : Filler " ".toList := by
    have hblank : " ".toList = [' '] := by decide +kernel
    rw [hblank]
    exact .mk (by decide) .nil
  have hfill : commentedGap.fill " " = "error | table a" := by decide +kernel
  exact hfill ▸ layout_does_not_matter hclean commentedGap hfiller

end LogSearch.Query
