import McpGateway.Lib.PgLexAppend

/-!
# Scanning a text in parts

The lexemes of two texts written one after the other, where the second starts
with a character that continues nothing (`lex_append_stop`), with a comment
(`lex_append_comment`), or with whatever leaves the last lexeme of the first as
it is (`lex_append_fits`).
-/

namespace PgLex

open McpGateway.Js

-- ---------------------------------------------------------------------------
-- A character that continues nothing
-- ---------------------------------------------------------------------------

/-- A text that starts with no character a lexeme before it could take in, and
completes no constant or comment left open before it. -/
structure Stops (u : JsString) : Prop where
  head : HeadNot (fun c => isJoint c || isOpChar c) u
  quotes : QuoteFree u
  dollars : dollar ∉ u
  stars : asterisk ∉ u

theorem opensComment_isOpChar (h : opensComment (c :: d :: s) = true) : isOpChar d = true := by
  rcases opensComment_cons.mp h with ⟨-, hd⟩ | ⟨-, hd⟩ <;> cases hd <;> rfl

theorem operator_append_of_run (h : z.takeWhile isOpChar = z → HeadNot isOpChar u) :
    operator (z ++ u) = operator z := by
  have hd : z.dropWhile isOpChar = [] → HeadNot isOpChar u := by
    intro hd
    refine h ?_
    have := List.takeWhile_append_dropWhile (p := isOpChar) (l := z)
    rwa [hd, List.append_nil] at this
  rw [operator, operator, takeWhile_append hd]

section
variable {u : JsString} (hu : Stops u)
include hu

theorem Stops.joint : HeadNot isJoint u := (headNot_or hu.head).1

theorem Stops.op : HeadNot isOpChar u := (headNot_or hu.head).2

theorem Stops.take : QuoteFree (u.take 2) := fun c hc => hu.quotes c (List.mem_of_mem_take hc)

theorem Stops.identCont : HeadNot isIdentCont u := hu.joint.mono fun c hc => by simp [isJoint, hc]

theorem Stops.opensComment : opensComment (c :: u) = false := by
  cases u with
  | nil => rfl
  | cons d u =>
    rw [Bool.eq_false_iff]
    exact fun h => Bool.eq_false_iff.mp (headNot_cons.mp hu.op) (opensComment_isOpChar h)

theorem Stops.numEnd : HeadNot (fun c => isNumCont c || isExpCont c) u := by
  refine hu.head.mono fun c hc => ?_
  rcases Bool.or_eq_true_iff.mp hc with hc | hc
  · simp [isJoint_of_num hc]
  · simp only [isExpCont, Bool.or_eq_true, beq_iff_eq] at hc
    rcases hc with (hc | rfl) | rfl
    · simp [isJoint_of_num (isNumCont_of_digit hc)]
    · rfl
    · rfl

theorem lexeme_append_stop (hz : QuoteFree z) (h : lexeme z = some (l, r))
    (hl : l = .lineComment → r ≠ []) : lexeme (z ++ u) = some (l, r ++ u) := by
  refine lexeme_append hz h hu.take (fun _ => hu.joint) (fun hone => ?_)
    (fun _ _ => operator_append_of_run fun _ => hu.op) (fun _ _ => hu.identCont)
    (fun h1 h2 => absurd h2 (hl h1))
  obtain ⟨c, rfl⟩ := List.length_eq_one_iff.mp hone
  exact hu.opensComment

theorem lexeme_append_none (hz : QuoteFree z) (hne : z ≠ []) (h : lexeme z = none) :
    lexeme (z ++ u) = none := by
  cases z with
  | nil => exact absurd rfl hne
  | cons c s =>
    have hstart : start c (s ++ u) = start c s :=
      start_append fun _ => ⟨hu.joint.mono fun d hd => isJoint_of_num (isNumCont_of_digit hd),
        hu.opensComment⟩
    have hspec := start_spec (c := c) (s := s)
    rw [lexeme] at h
    rw [List.cons_append, lexeme, hstart]
    cases hk : start c s <;> simp only [hk, reduceCtorEq] at h hspec ⊢
    case block =>
      have hs : s ≠ [] := by rintro rfl; cases hspec.2
      have hslash : HeadNot (· == slash) u := hu.op.mono fun d hd => by
        rw [beq_iff_eq.mp hd]
        rfl
      rw [List.tail_append_of_ne_nil hs,
        afterBlock_append_none hu.stars hslash (Option.map_eq_none_iff.mp h)]
      rfl
    case quote => cases hspec; cases hz singleQuote (by simp)
    case quotedName => cases hspec; cases hz doubleQuote (by simp)
    case dollar => rw [dollarSign_append (fun _ => hu.identCont) (.inr hu.dollars), h]; rfl
    case number =>
      rw [← List.cons_append, number_append hspec (.inl hu.numEnd), Option.map_eq_none_iff.mp h]
      rfl
    case name => rw [name_plain fun d hd => hz d (.tail _ (List.mem_of_mem_take hd))] at h; cases h

end

/-- The text the scanner goes on with after the lexemes `ls`: a line comment left
open takes in what follows up to the end of its line. -/
def resume (ls : List Lexeme) (u : JsString) : JsString :=
  if ls.getLast? = some .lineComment then afterLine u else u

theorem resume_cons (h : l = .lineComment → r ≠ []) (hr : lex r = some ls) :
    resume (l :: ls) u = resume ls u := by
  cases ls with
  | nil =>
    obtain rfl := lex_eq_nil hr
    have hl : l ≠ .lineComment := fun hl => h hl rfl
    simp [resume, hl]
  | cons m ls => simp [resume]

theorem lexeme_append_line (h : lexeme z = some (.lineComment, [])) :
    lexeme (z ++ u) = some (.lineComment, afterLine u) := by
  cases z with
  | nil => cases h
  | cons c s =>
    rcases lexeme_shape h with ⟨h, -⟩ | ⟨-, rfl, hs, hr⟩ | ⟨h, -⟩ | ⟨⟨t, h⟩, -⟩
    · cases h
    · have hs' : (s ++ u).head? = some hyphen := by
        cases s with
        | nil => cases hs
        | cons d s => exact hs
      have hr' : afterLine (s ++ u) = afterLine u :=
        List.dropWhile_append_of_pos (List.dropWhile_eq_nil_iff.mp hr.symm)
      rw [List.cons_append, lexeme]
      simp [start, hs', hr', show isPgSpace hyphen = false from rfl]
    · cases h
    · cases h

theorem lex_append_stop (hz : QuoteFree z) (hu : Stops u) :
    lex (z ++ u) = (lex z).bind fun ls => (lex (resume ls u)).map (ls ++ ·) := by
  induction z using scan_induction with
  | nil => simp [lex_nil, resume]
  | fail z hnil hl =>
    rw [lex_none hnil hl, lex_none (by simp [hnil]) (lexeme_append_none hu hz hnil hl)]
    rfl
  | step z l r hl ih =>
    by_cases hline : l = .lineComment ∧ r = []
    · obtain ⟨rfl, rfl⟩ := hline
      rw [lex_step (lexeme_append_line hl), lex_step hl]
      simp [lex_nil, resume]
    · have hline : l = .lineComment → r ≠ [] := fun h1 h2 => hline ⟨h1, h2⟩
      rw [lex_step (lexeme_append_stop hu hz hl hline), lex_step hl,
        ih (hz.suffix (lexeme_suffix_of hl))]
      cases hls : lex r with
      | none => rfl
      | some ls =>
        simp only [Option.bind_some, Option.map_some, resume_cons hline hls]
        cases lex (resume ls u) <;> rfl

/-- A token of the first text is one of the whole, and there are no others but the second's. -/
theorem occurs_append_stop (hz : QuoteFree z) (hu : Stops u) (hline : afterLine u = []) :
    (Occurs t z → Occurs t (z ++ u)) ∧ (Occurs t (z ++ u) → Occurs t z ∨ Occurs t u) := by
  induction z using scan_induction with
  | nil => exact ⟨fun h => absurd h (occurs_none rfl), .inr⟩
  | fail z hnil hl =>
    have happend := lexeme_append_none hu hz hnil hl
    exact ⟨fun h => absurd h (occurs_none hl), fun h => absurd h (occurs_none happend)⟩
  | step z l r hl ih =>
    by_cases hopen : l = .lineComment ∧ r = []
    · obtain ⟨rfl, rfl⟩ := hopen
      rw [occurs_step hl, occurs_step (lexeme_append_line hl), hline]
      exact ⟨id, .inl⟩
    · rw [occurs_step hl,
        occurs_step (lexeme_append_stop hu hz hl fun h1 h2 => hopen ⟨h1, h2⟩)]
      obtain ⟨hkept, honly⟩ := ih (hz.suffix (lexeme_suffix_of hl))
      exact ⟨.imp_right hkept, fun h => h.elim (fun h => .inl (.inl h)) fun h =>
        (honly h).imp_left .inr⟩

-- ---------------------------------------------------------------------------
-- A comment
-- ---------------------------------------------------------------------------

/-- No comment opener starts in `z`, not even one that ends in `u`. -/
def NoOpenerIn (z u : JsString) : Prop := ∀ y, y <:+ z → y ≠ [] → opensComment (y ++ u) = false

theorem NoOpenerIn.suffix (h : NoOpenerIn z u) (hr : r <:+ z) : NoOpenerIn r u :=
  fun y hy => h y (hy.trans hr)

theorem NoOpenerIn.tail (h : NoOpenerIn (c :: z) u) : NoOpenerIn z u := h.suffix (List.suffix_cons c z)

theorem NoOpenerIn.head (h : NoOpenerIn (c :: z) u) : opensComment (c :: (z ++ u)) = false :=
  h (c :: z) List.suffix_rfl (List.cons_ne_nil c z)

theorem NoOpenerIn.hasOpener (h : NoOpenerIn z u) : hasOpener z = false := by
  induction z with
  | nil => rfl
  | cons c z ih =>
    have hc : opensComment (c :: z) = false := by
      cases z with
      | nil => rfl
      | cons d z => exact h.head
    rw [PgLex.hasOpener, hc, ih h.tail]
    rfl

theorem beforeComment_append (h : NoOpenerIn z u) : beforeComment (z ++ u) = z ++ beforeComment u := by
  induction z with
  | nil => rfl
  | cons c z ih => rw [List.cons_append, beforeComment_cons h.head, ih h.tail, List.cons_append]

theorem beforeComment_opens (h : opensComment s = true) : beforeComment s = [] := by
  rcases s with _ | ⟨c, _ | ⟨d, s⟩⟩
  · rfl
  · cases h
  · have : (c = hyphen ∧ d = hyphen) ∨ (c = slash ∧ d = asterisk) := by
      simpa [opensComment] using h
    simp [beforeComment, this]

theorem opens_takeWhile (h : opensComment u = true) :
    opensComment (u.takeWhile isOpChar) = true := by
  rcases u with _ | ⟨c, _ | ⟨d, u⟩⟩
  · cases h
  · cases h
  · have hc : isOpChar c = true := by
      rcases opensComment_cons.mp h with ⟨rfl, -⟩ | ⟨rfl, -⟩ <;> rfl
    rw [List.takeWhile_cons_of_pos hc, List.takeWhile_cons_of_pos (opensComment_isOpChar h)]
    exact h

theorem NoOpenerIn.takeWhile (h : NoOpenerIn z u) : NoOpenerIn z (u.takeWhile isOpChar) := by
  intro y hy hne
  have hopen := h y hy hne
  rcases y with _ | ⟨c, _ | ⟨d, y⟩⟩
  · exact absurd rfl hne
  · rw [List.cons_append, List.nil_append] at hopen ⊢
    rw [opensComment_takeWhile, hopen]
  · exact hopen

theorem takeWhile_all_append {z u : JsString} (hz : z.takeWhile isOpChar = z) :
    (z ++ u).takeWhile isOpChar = z ++ u.takeWhile isOpChar :=
  List.takeWhile_append_of_pos (List.takeWhile_eq_self_iff.mp hz)

theorem operator_append_comment (hu : opensComment u = true) (h : NoOpenerIn z u) :
    operator (z ++ u) = operator z := by
  by_cases hz : z.takeWhile isOpChar = z
  · rw [operator, operator, takeWhile_all_append hz, beforeComment_append h.takeWhile,
      beforeComment_opens (opens_takeWhile hu), hz]
    have hself := beforeComment_append (u := []) (z := z) fun y hy hne => by
      have := h y hy hne
      rcases y with _ | ⟨c, _ | ⟨d, y⟩⟩
      · exact absurd rfl hne
      · rfl
      · exact this
    rw [List.append_nil] at hself
    rw [hself]
    rfl
  · exact operator_append_of_run fun h => absurd h hz

theorem lexeme_append_comment (hz : QuoteFree z) (hu : opensComment u = true) (hno : NoOpenerIn z u)
    (h : lexeme z = some (l, r)) : lexeme (z ++ u) = some (l, r ++ u) := by
  obtain ⟨c, d, v, rfl, hc, hd⟩ : ∃ c d v, u = c :: d :: v ∧ (c = hyphen ∨ c = slash) ∧
      (d = hyphen ∨ d = asterisk) := by
    rcases u with _ | ⟨c, _ | ⟨d, v⟩⟩
    · cases hu
    · cases hu
    · refine ⟨c, d, v, rfl, ?_⟩
      rcases opensComment_cons.mp hu with ⟨rfl, h⟩ | ⟨rfl, h⟩ <;> cases h
      · exact ⟨.inl rfl, .inl rfl⟩
      · exact ⟨.inr rfl, .inr rfl⟩
  have hjoint : HeadNot isJoint (c :: d :: v) := by
    rw [headNot_cons]
    rcases hc with rfl | rfl <;> rfl
  refine lexeme_append hz h ?_ (fun _ => hjoint) (fun hone => ?_)
    (fun _ _ => operator_append_comment hu hno)
    (fun _ _ => hjoint.mono fun e he => by simp [isJoint, he]) (fun hl _ => ?_)
  · rcases hc with rfl | rfl <;> rcases hd with rfl | rfl <;>
      simp [QuoteFree, isQuote] <;> decide
  · exact hno z List.suffix_rfl (lexeme_ne_nil h)
  · subst hl
    rcases lexeme_token hno.hasOpener h with h | ⟨t, h⟩ <;> cases h

theorem lex_append_comment (hz : QuoteFree z) (hu : opensComment u = true) (hno : NoOpenerIn z u)
    (h : lex z = some ls) : lex (z ++ u) = (lex u).map (ls ++ ·) := by
  induction z using scan_induction generalizing ls with
  | nil => cases h; simp
  | fail z hnil hl => rw [lex_none hnil hl] at h; cases h
  | step z l r hl ih =>
    rw [lex_step hl] at h
    obtain ⟨ls', hls, rfl⟩ := Option.map_eq_some_iff.mp h
    have hr := lexeme_suffix_of hl
    rw [lex_step (lexeme_append_comment hz hu hno hl), ih (hz.suffix hr) (hno.suffix hr) hls]
    cases lex u <;> rfl

-- ---------------------------------------------------------------------------
-- Whatever leaves the last lexeme as it is
-- ---------------------------------------------------------------------------

/-- The token that ends `z` is read as it is when `u` follows at once. -/
def Fits (z u : JsString) : Prop :=
  ∀ x t, Reaches z x → lexeme x = some (.token t, []) → lexeme (x ++ u) = some (.token t, u)

theorem Fits.step (h : Fits z u) (hl : lexeme z = some (l, r)) : Fits r u :=
  fun x t hx => h x t (.trans (.next .start hl) hx)

theorem last_lexeme (h : lex s = some ls) (hs : s ≠ []) :
    ∃ x l, Reaches s x ∧ lexeme x = some (l, []) := by
  induction s using scan_induction generalizing ls with
  | nil => exact absurd rfl hs
  | fail s hnil hl => rw [lex_none hnil hl] at h; cases h
  | step s l r hl ih =>
    by_cases hr : r = []
    · exact ⟨s, l, .start, hr ▸ hl⟩
    · rw [lex_step hl] at h
      obtain ⟨ls', hls, -⟩ := Option.map_eq_some_iff.mp h
      obtain ⟨x, l', hx, hl'⟩ := ih hls hr
      exact ⟨x, l', .trans (.next .start hl) hx, hl'⟩

def isSign (c : CodeUnit) : Bool := c == plusSign || c == hyphen

theorem sign_facts (h : isSign c = true) : isOpChar c = true ∧ isOpMark c = false := by
  rcases Bool.or_eq_true_iff.mp h with h | h <;> rw [beq_iff_eq.mp h] <;> decide

theorem dropSigns_cons :
    dropSigns (c :: s) = if (c :: s).any isOpMark then c :: s else c :: s.rdropWhile isSign := rfl

/-- An operator that left signs behind has no mark, and leaves more signs behind
when more follow. -/
theorem dropSigns_append (hv : ∀ d ∈ v, isSign d = true) (h : dropSigns (c :: s) ≠ c :: s) :
    dropSigns (c :: s ++ v) = dropSigns (c :: s) := by
  have hmark : (c :: s).any isOpMark = false := by
    rw [Bool.eq_false_iff]
    intro hm
    rw [dropSigns_cons, if_pos hm] at h
    exact h rfl
  have hmark' : (c :: (s ++ v)).any isOpMark = false := by
    rw [← List.cons_append, List.any_append, hmark, Bool.false_or, List.any_eq_false]
    exact fun d hd => by simp [(sign_facts (hv d hd)).2]
  rw [List.cons_append, dropSigns_cons, dropSigns_cons, hmark, hmark']
  simp only [Bool.false_eq_true, ↓reduceIte, List.cons.injEq, true_and]
  rw [List.rdropWhile, List.rdropWhile, List.reverse_append, List.dropWhile_append_of_pos]
  simpa using hv

theorem lexeme_op (h : lexeme (c :: s) = some (.token (.op t), r)) :
    isOpChar c = false ∨ (isOpChar c = true ∧ opensComment (c :: s) = false ∧
      t = operator (c :: s) ∧ r = (c :: s).drop (operator (c :: s)).length) := by
  cases hc : isOpChar c with
  | false => exact .inl rfl
  | true =>
    have ho : opensComment (c :: s) = false := by
      rcases lexeme_shape h with ⟨h, -⟩ | ⟨h, -⟩ | ⟨h, -⟩ | ⟨-, h⟩
      · cases h
      · cases h
      · cases h
      · exact h
    rw [lexeme_operator hc ho] at h
    cases h
    exact .inr ⟨rfl, ho, rfl, rfl⟩

/-- A lone sign that ends a text and fits what follows: the run of operator
characters after it is all signs. -/
theorem run_of_sign (hd : isSign d = true) (h : lexeme (d :: u) = some (.token (.op [d]), u)) :
    opensComment (d :: u) = false ∧ ∀ c ∈ beforeComment (u.takeWhile isOpChar), isSign c = true := by
  have hop := (sign_facts hd).1
  rcases lexeme_op h with h | ⟨-, ho, ht, -⟩
  · rw [hop] at h
    cases h
  refine ⟨ho, ?_⟩
  rw [operator, List.takeWhile_cons_of_pos hop, beforeComment_cons (opensComment_takeWhile.trans ho),
    dropSigns_cons] at ht
  split at ht
  · rw [← (List.cons.inj ht).2]
    rintro c ⟨⟩
  · exact List.rdropWhile_eq_nil_iff.mp (List.cons.inj ht).2.symm

theorem drop_rdropWhile (p : α → Bool) (s : List α) :
    s.drop (s.rdropWhile p).length = (s.reverse.takeWhile p).reverse := by
  have hs : s = s.rdropWhile p ++ (s.reverse.takeWhile p).reverse := by
    rw [List.rdropWhile, ← List.reverse_append, List.takeWhile_append_dropWhile, List.reverse_reverse]
  conv_lhs => arg 2; rw [hs]
  exact List.drop_left

/-- A run of operator characters with no comment opener in it is cut nowhere. -/
theorem operator_of_all (hz : z.takeWhile isOpChar = z) (hno : hasOpener z = false) :
    operator z = dropSigns z := by
  have hopen : NoOpenerIn z [] := by
    intro y hy _
    rw [List.append_nil, Bool.eq_false_iff]
    rw [Bool.eq_false_iff] at hno
    exact fun h => hno (hasOpener_of_suffix hy (hasOpener_of_opens h))
  have := beforeComment_append hopen
  rw [List.append_nil] at this
  rw [operator, hz, this]
  exact congrArg dropSigns (List.append_nil z)

/-- The signs an operator leaves behind at the end of a text are read one by one. -/
theorem last_sign (hsign : ∀ d ∈ r, isSign d = true) (hno : hasOpener r = false) (hr : r ≠ [])
    (hlex : lex r = some ls) :
    ∃ d, isSign d = true ∧ [d] <:+ r ∧ Reaches r [d] ∧ lexeme [d] = some (.token (.op [d]), []) := by
  obtain ⟨x, l, hx, hl⟩ := last_lexeme hlex hr
  cases x with
  | nil => cases hl
  | cons d x =>
    have hsx : ∀ e ∈ d :: x, isSign e = true := fun e he => hsign e (hx.suffix.subset he)
    have hd := hsx d (.head _)
    have hnox : hasOpener (d :: x) = false := by
      rw [Bool.eq_false_iff] at hno ⊢
      exact fun h => hno (hasOpener_of_suffix hx.suffix h)
    have hall : (d :: x).takeWhile isOpChar = d :: x :=
      List.takeWhile_eq_self_iff.mpr fun e he => (sign_facts (hsx e he)).1
    have hmark : (d :: x).any isOpMark = false :=
      List.any_eq_false.mpr fun e he => by simp [(sign_facts (hsx e he)).2]
    have hop : operator (d :: x) = [d] := by
      rw [operator_of_all hall hnox, dropSigns_cons, hmark,
        List.rdropWhile_eq_nil_iff.mpr fun e he => hsx e (.tail _ he)]
      rfl
    have hopen : opensComment (d :: x) = false := by
      rw [Bool.eq_false_iff] at hnox ⊢
      exact fun h => hnox (hasOpener_of_opens h)
    rw [lexeme_operator (sign_facts hd).1 hopen, hop] at hl
    obtain rfl : x = [] := (Prod.mk.inj (Option.some.inj hl)).2
    exact ⟨d, hd, hx.suffix, hx, by rw [lexeme_operator (sign_facts hd).1 hopen, hop]; rfl⟩

theorem operator_append_fits (hno : hasOpener z = false) (hfits : Fits z u)
    (h : lexeme z = some (.token (.op t), r)) (hr : r ≠ []) (hlex : lex r = some ls) :
    operator (z ++ u) = operator z := by
  by_cases hz : z.takeWhile isOpChar = z
  · cases z with
    | nil => cases h
    | cons c s =>
      have hself := operator_of_all hz hno
      rcases lexeme_op h with hc | ⟨-, -, -, hdrop⟩
      · rw [List.takeWhile_cons_of_neg (by simp [hc])] at hz
        cases hz
      have hne : dropSigns (c :: s) ≠ c :: s := by
        intro he
        rw [hself, he, List.drop_length] at hdrop
        exact hr hdrop
      -- What the operator left behind is the run of signs at its end.
      have hsigns : ∀ d ∈ r, isSign d = true := by
        have hmark : (c :: s).any isOpMark = false := by
          rw [Bool.eq_false_iff]
          intro hm
          rw [dropSigns_cons, if_pos hm] at hne
          exact hne rfl
        rw [hself, dropSigns_cons, hmark] at hdrop
        simp only [Bool.false_eq_true, ↓reduceIte, List.length_cons, List.drop_succ_cons] at hdrop
        rw [hdrop, drop_rdropWhile]
        intro d hd
        exact List.mem_takeWhile_imp (List.mem_reverse.mp hd)
      have hsuffix := lexeme_suffix_of h
      have hnor : hasOpener r = false := by
        rw [Bool.eq_false_iff] at hno ⊢
        exact fun h => hno (hasOpener_of_suffix hsuffix h)
      obtain ⟨d, hd, hdr, hreach, hld⟩ := last_sign hsigns hnor hr hlex
      obtain ⟨hopen, hrun⟩ := run_of_sign hd ((hfits.step h) [d] _ hreach hld)
      have hnoz : NoOpenerIn (c :: s) u := by
        intro y hy hyne
        rcases y with _ | ⟨e, _ | ⟨f, y⟩⟩
        · exact absurd rfl hyne
        · have : [e] = [d] := by
            have := List.suffix_of_suffix_length_le hy (hdr.trans hsuffix) (by simp)
            exact this.eq_of_length (by simp)
          rw [(List.cons.inj this).1]
          exact hopen
        · rw [Bool.eq_false_iff] at hno ⊢
          exact fun h => hno (hasOpener_of_suffix hy (hasOpener_of_opens h))
      rw [hself, operator, takeWhile_all_append hz, beforeComment_append hnoz.takeWhile]
      exact dropSigns_append hrun hne
  · exact operator_append_of_run fun h => absurd h hz

theorem ident_facts (h : isIdentStart c = true) : isPgSpace c = false ∧ isDigit c = false := by
  have hblank : c ≠ blank := by rintro rfl; cases h
  simp only [isIdentStart, Bool.or_eq_true] at h
  rcases h with (h | h) | h
  · simp only [isLetter, isUpper, isLower, isPgSpace, isDigit, Bool.or_eq_true, Bool.and_eq_true,
      decide_eq_true_eq, UInt16.le_iff_toNat_le, Bool.or_eq_false_iff, Bool.and_eq_false_iff,
      decide_eq_false_iff_not] at h ⊢
    refine ⟨⟨?_, beq_false_of_ne hblank⟩, ?_⟩ <;> simp at h ⊢ <;> omega
  · rw [beq_iff_eq.mp h]
    decide
  · simp only [isPgSpace, isDigit, decide_eq_true_eq, UInt16.le_iff_toNat_le, Bool.or_eq_false_iff,
      Bool.and_eq_false_iff, decide_eq_false_iff_not] at h ⊢
    refine ⟨⟨?_, beq_false_of_ne hblank⟩, ?_⟩ <;> simp at h ⊢ <;> omega

theorem lexeme_name (hc : isIdentStart c = true) (hs : QuoteFree (s.take 2)) :
    lexeme (c :: s) = some (nameToken (c :: s)) := by
  have hne {d : CodeUnit} (hd : isIdentStart d = false) : c ≠ d := by
    rintro rfl
    rw [hc] at hd
    cases hd
  have hstart : start c s = .name := by
    simp [start, ident_facts hc, hc, hne (d := hyphen) rfl, hne (d := slash) rfl,
      hne (d := singleQuote) rfl, hne (d := doubleQuote) rfl, hne (d := dollar) rfl,
      hne (d := fullStop) rfl]
  rw [lexeme, hstart]
  exact name_plain hs

/-- A character that stands for itself, and a dollar sign that opens nothing. -/
theorem lexeme_self (h : lexeme z = some (.token (.self a), r)) :
    z = a :: r ∧ (a = dollar → r.head?.any isDigit = false) := by
  cases z with
  | nil => cases h
  | cons c s =>
    have hspec := start_spec (c := c) (s := s)
    rw [lexeme] at h
    cases hk : start c s <;> simp only [hk] at h hspec
    case dollar =>
      simp only [dollarSign] at h
      split at h
      · split at h <;> cases h
      split at h
      · obtain ⟨b, -, hb⟩ := Option.map_eq_some_iff.mp h
        cases hb
      · cases h
        rename_i hdig _
        exact ⟨by rw [hspec], fun _ => Bool.eq_false_iff.mpr hdig⟩
    case name =>
      simp only [name] at h
      split_ifs at h
      all_goals
        first
        | cases h
        | obtain ⟨b, -, hb⟩ := Option.map_eq_some_iff.mp h
          cases hb
    case punctuation =>
      have hc : c = a ∧ s = r := by
        cases s with
        | nil => cases h; exact ⟨rfl, rfl⟩
        | cons d s =>
          simp only [punctuation] at h
          split at h <;> cases h
          exact ⟨rfl, rfl⟩
      obtain ⟨rfl, rfl⟩ := hc
      refine ⟨rfl, fun hd => ?_⟩
      rw [hd] at hk
      cases hk
    all_goals
      first
      | cases h
      | obtain ⟨b, -, hb⟩ := Option.map_eq_some_iff.mp h
        cases hb

/-- What follows a dollar sign that opened no constant does not complete one. -/
theorem dollar_fits (hz : QuoteFree z) (hu : QuoteFree u) (hfits : Fits z u)
    (h : lexeme z = some (.token (.self dollar), r)) (hr : r ≠ [])
    (htag : r.dropWhile isTagCont = []) : HeadNot isIdentCont u := by
  obtain ⟨rfl, hd⟩ := lexeme_self h
  cases r with
  | nil => exact absurd rfl hr
  | cons c r =>
    have hall := List.dropWhile_eq_nil_iff.mp htag
    have hcont : ∀ d ∈ c :: r, isIdentCont d = true := fun d hd => by simp [isIdentCont, hall d hd]
    have hc : isIdentStart c = true := by
      have hdig : isDigit c = false := by simpa using hd rfl
      simpa [isTagCont, hdig] using hall c (.head _)
    have hqr : QuoteFree r := fun d hd => hz d (.tail _ (.tail _ hd))
    have hname : lexeme (c :: r) = some (nameToken (c :: r)) :=
      lexeme_name hc fun d hd => hqr d (List.mem_of_mem_take hd)
    rw [nameToken, List.dropWhile_eq_nil_iff.mpr hcont] at hname
    have hfit := hfits (c :: r) _ (.next .start h) hname
    rw [List.cons_append, lexeme_name hc, nameToken, ← List.cons_append,
      List.dropWhile_append_of_pos hcont] at hfit
    · have hself : u.dropWhile isIdentCont = u := (Prod.mk.inj (Option.some.inj hfit)).2
      intro d hd
      cases u with
      | nil => cases hd
      | cons e u =>
        cases hd
        rw [Bool.eq_false_iff]
        intro he
        rw [List.dropWhile_cons_of_pos he] at hself
        have := (List.dropWhile_suffix (p := isIdentCont) (l := u)).length_le
        rw [hself, List.length_cons] at this
        omega
    · intro d hd
      rcases List.mem_append.mp (List.mem_of_mem_take hd) with hd | hd
      · exact hqr d hd
      · exact hu d hd

theorem lexeme_append_fits (hz : QuoteFree z) (hu : QuoteFree u) (hno : hasOpener z = false)
    (hfits : Fits z u) (h : lexeme z = some (l, r)) (hlex : lex r = some ls) :
    lexeme (z ++ u) = some (l, r ++ u) := by
  by_cases hr : r = []
  · subst hr
    rcases lexeme_token hno h with rfl | ⟨t, rfl⟩
    · cases z with
      | nil => cases h
      | cons c s =>
        rcases lexeme_shape h with ⟨-, hc, rfl⟩ | ⟨h, -⟩ | ⟨h, -⟩ | ⟨⟨t, h⟩, -⟩
        · simp [lexeme, start, hc]
        · cases h
        · cases h
        · cases h
    · exact hfits z t .start h
  · refine lexeme_append hz h (fun c hc => hu c (List.mem_of_mem_take hc)) (fun h => absurd h hr)
      (fun hone => ?_) (fun t hl => ?_) (fun hl => ?_) (fun _ h => absurd h hr)
    · have := lexeme_length h
      rw [hone, Nat.lt_one_iff, List.length_eq_zero_iff] at this
      exact absurd this hr
    · exact operator_append_fits hno hfits (hl ▸ h) hr hlex
    · exact dollar_fits hz hu hfits (hl ▸ h) hr

theorem lex_append_fits (hz : QuoteFree z) (hu : QuoteFree u) (hno : hasOpener z = false)
    (hfits : Fits z u) (h : lex z = some ls) : lex (z ++ u) = (lex u).map (ls ++ ·) := by
  induction z using scan_induction generalizing ls with
  | nil => cases h; simp
  | fail z hnil hl => rw [lex_none hnil hl] at h; cases h
  | step z l r hl ih =>
    rw [lex_step hl] at h
    obtain ⟨ls', hls, rfl⟩ := Option.map_eq_some_iff.mp h
    have hr := lexeme_suffix_of hl
    have hnor : hasOpener r = false := by
      rw [Bool.eq_false_iff] at hno ⊢
      exact fun h => hno (hasOpener_of_suffix hr h)
    rw [lex_step (lexeme_append_fits hz hu hno hfits hl hls),
      ih (hz.suffix hr) hnor (hfits.step hl) hls]
    cases lex u <;> rfl

end PgLex
