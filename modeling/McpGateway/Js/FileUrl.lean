import McpGateway.Js.UriComponent

/-!
# File URLs

`new URL(name, base)` for a base with the scheme `file` and no host, and the path that the
file system is asked for. A path is its segments: as they stand in the URL, then decoded.
A name has no lone surrogate.
-/

namespace McpGateway.Js

@[match_pattern] abbrev numberSign : CodeUnit := 0x23
@[match_pattern] abbrev questionMark : CodeUnit := 0x3F

-- ---------------------------------------------------------------------------
-- The input
-- ---------------------------------------------------------------------------

/-- A control or a blank: it is cut off at both ends. -/
def isControlOrBlank (c : CodeUnit) : Bool := c ≤ 0x20

def isTabOrNewline (c : CodeUnit) : Bool := c == 0x09 || c == 0x0A || c == 0x0D

def urlInput (s : JsString) : JsString :=
  ((s.dropWhile isControlOrBlank).rdropWhile isControlOrBlank).filter (!isTabOrNewline ·)

def isSchemeUnit (c : CodeUnit) : Bool :=
  isLetter c || isDigit c || c == plusSign || c == hyphen || c == fullStop

def urlScheme (text : JsString) : Option (JsString × JsString) :=
  if (text.head?.map isLetter).getD false then
    match text.dropWhile isSchemeUnit with
    | colon :: rest => some (toLowerCase (text.takeWhile isSchemeUnit), rest)
    | _ => none
  else none

-- ---------------------------------------------------------------------------
-- The path
-- ---------------------------------------------------------------------------

def isSlash (c : CodeUnit) : Bool := c == slash || c == backslash

def endsPath (c : CodeUnit) : Bool := c == questionMark || c == numberSign

def isDriveLetter : JsString → Bool
  | [c, d] => isLetter c && (d == colon || d == verticalBar)
  | _ => false

def isNormalizedDriveLetter : JsString → Bool
  | [c, d] => isLetter c && d == colon
  | _ => false

def startsWithDriveLetter (text : JsString) : Bool :=
  isDriveLetter (text.take 2) && (text[2]?.map fun c => isSlash c || endsPath c).getD true

def isSingleDot (segment : JsString) : Bool := [js ".", js "%2e"].contains (toLowerCase segment)

def isDoubleDot (segment : JsString) : Bool :=
  [js "..", js ".%2e", js "%2e.", js "%2e%2e"].contains (toLowerCase segment)

def shortenPath (path : List JsString) : List JsString :=
  match path with
  | [segment] => if isNormalizedDriveLetter segment then path else []
  | _ => path.dropLast

def pushSegment (path : List JsString) (segment : JsString) (slashed : Bool) : List JsString :=
  if isDoubleDot segment then
    if slashed then shortenPath path else shortenPath path ++ [[]]
  else if isSingleDot segment then
    if slashed then path else path ++ [[]]
  else if path.isEmpty && isDriveLetter segment then [segment.take 1 ++ [colon]]
  else path ++ [segment]

def pushSegments (path : List JsString) : List JsString → List JsString
  | [] => path
  | [segment] => pushSegment path segment false
  | segment :: rest => pushSegments (pushSegment path segment true) rest

/-- The path state: the query and the fragment are no part of the path. -/
def parsePath (path : List JsString) (text : JsString) : List JsString :=
  pushSegments path ((text.takeWhile (!endsPath ·)).splitOnP isSlash)

/-- The file host state. A host that the parser does not read as none is refused by the
file system, if not by the parser. -/
def parseFileHost (isLocalhost : JsString → Bool) (text : JsString) : Option (List JsString) :=
  let host := text.takeWhile fun c => !(isSlash c || endsPath c)
  let rest := text.dropWhile fun c => !(isSlash c || endsPath c)
  if isDriveLetter host then some (parsePath [] text)
  else if host.isEmpty || isLocalhost host then
    some (parsePath [] (if (rest.head?.map isSlash).getD false then rest.tail else rest))
  else none

def parseFile (isLocalhost : JsString → Bool) (base : List JsString) (text : JsString) :
    Option (List JsString) :=
  match text with
  | [] => some base
  | c :: rest =>
    if isSlash c then
      if (rest.head?.map isSlash).getD false then parseFileHost isLocalhost rest.tail
      else
        let drive := base.take 1
        some (parsePath (if !startsWithDriveLetter rest && drive.any isNormalizedDriveLetter
          then drive else []) rest)
    else if endsPath c then some base
    else some (parsePath (if startsWithDriveLetter text then [] else shortenPath base) text)

/-- The path of `new URL(name, base)`; `none` when there is no such URL or it is not one that
the file system takes. -/
def resolveFileUrl (isLocalhost : JsString → Bool) (base : List JsString) (name : JsString) :
    Option (List JsString) :=
  let text := urlInput name
  match urlScheme text with
  | none => parseFile isLocalhost base text
  | some (scheme, rest) => if scheme = js "file" then parseFile isLocalhost base rest else none

/-- An escaped slash in a file URL is an error. -/
def hasEscapedSlash (segment : JsString) : Bool :=
  (toLowerCase segment).tails.any (js "%2f").isPrefixOf

/-- `fileURLToPath`, segment by segment. -/
def fileUrlToPath (path : List JsString) : Option (List JsString) :=
  path.mapM fun segment => if hasEscapedSlash segment then none else decodeURIComponent segment

-- ---------------------------------------------------------------------------
-- Names that stand for themselves
-- ---------------------------------------------------------------------------

/-- A unit that the parser passes on as it is. -/
def isNameUnit (c : CodeUnit) : Bool :=
  !(isControlOrBlank c || isSlash c || endsPath c || c == percentSign || c == colon)

theorem isNameUnit_iff {c : CodeUnit} : isNameUnit c = true ↔
    isControlOrBlank c = false ∧ isSlash c = false ∧ endsPath c = false ∧ c ≠ percentSign ∧
      c ≠ colon := by
  simp [isNameUnit, and_assoc]

section
variable {s : JsString} {path : List JsString}

theorem urlInput_name (h : ∀ c ∈ s, isNameUnit c = true) : urlInput s = s := by
  have hkeep : ∀ c ∈ s, isControlOrBlank c = false := fun c hc => (isNameUnit_iff.mp (h c hc)).1
  have hstart : s.dropWhile isControlOrBlank = s := by
    cases s with
    | nil => rfl
    | cons c s => rw [List.dropWhile_cons_of_neg (by simp [hkeep c])]
  have hend : s.rdropWhile isControlOrBlank = s := by
    rw [List.rdropWhile_eq_self_iff]
    intro hne
    simp [hkeep _ (List.getLast_mem hne)]
  rw [urlInput, hstart, hend, List.filter_eq_self]
  intro c hc
  have hblank := hkeep c hc
  unfold isControlOrBlank at hblank
  unfold isTabOrNewline
  rw [Bool.not_eq_true', Bool.or_eq_false_iff, Bool.or_eq_false_iff]
  refine ⟨⟨?_, ?_⟩, ?_⟩ <;>
  · rw [beq_eq_false_iff_ne]
    rintro rfl
    exact absurd hblank (by decide)

theorem urlScheme_name (h : ∀ c ∈ s, isNameUnit c = true) : urlScheme s = none := by
  unfold urlScheme
  split
  · split
    · next rest hrest =>
      have hmem : colon ∈ s :=
        (List.dropWhile_suffix _).subset (by rw [hrest]; exact List.mem_cons_self)
      exact absurd rfl (isNameUnit_iff.mp (h colon hmem)).2.2.2.2
    · rfl
  · rfl

theorem splitOnP_name (h : ∀ c ∈ s, isNameUnit c = true) :
    (s.takeWhile (!endsPath ·)).splitOnP isSlash = [s] := by
  have hall : s.takeWhile (!endsPath ·) = s := by
    rw [List.takeWhile_eq_self_iff]
    intro c hc
    simp [(isNameUnit_iff.mp (h c hc)).2.2.1]
  rw [hall, List.splitOnP_eq_singleton fun c hc => (isNameUnit_iff.mp (h c hc)).2.1]

theorem getLast?_dotSegment {segment : JsString} {c : CodeUnit}
    (h : isSingleDot segment = true ∨ isDoubleDot segment = true)
    (hlast : segment.getLast? = some c) : lower c = fullStop ∨ lower c = unit 'e' := by
  have hends : ∀ dots ∈ [js ".", js "%2e", js "..", js ".%2e", js "%2e.", js "%2e%2e"],
      dots.getLast? = some fullStop ∨ dots.getLast? = some (unit 'e') := by decide
  have hmem : toLowerCase segment ∈
      [js ".", js "%2e", js "..", js ".%2e", js "%2e.", js "%2e%2e"] := by
    rcases h with h | h
    · exact List.mem_append_left [js "..", js ".%2e", js "%2e.", js "%2e%2e"]
        (List.contains_iff_mem.mp h)
    · exact List.mem_append_right [js ".", js "%2e"] (List.contains_iff_mem.mp h)
  have hlower : (toLowerCase segment).getLast? = some (lower c) := by
    rw [toLowerCase, List.getLast?_map, hlast, Option.map_some]
  rcases hends _ hmem with hdots | hdots
  · exact .inl (Option.some.inj (hlower.symm.trans hdots))
  · exact .inr (Option.some.inj (hlower.symm.trans hdots))

theorem not_isDriveLetter {c d : CodeUnit} (hd : lower d ≠ colon) (hd' : lower d ≠ verticalBar) :
    isDriveLetter [c, d] = false := by
  have hne : d ≠ colon ∧ d ≠ verticalBar := by
    constructor
    · rintro rfl
      exact hd (by decide)
    · rintro rfl
      exact hd' (by decide)
  simp [isDriveLetter, hne]

/-- A segment that ends in another unit is no dot segment and no drive letter. -/
theorem pushSegment_of_getLast {c : CodeUnit} (hlast : s.getLast? = some c)
    (hc : lower c ∉ [fullStop, unit 'e', colon, verticalBar]) :
    pushSegment path s false = path ++ [s] := by
  simp only [List.mem_cons, List.not_mem_nil, or_false, not_or] at hc
  obtain ⟨hdot, he, hcolon, hbar⟩ := hc
  have hplain : ¬ (isSingleDot s = true ∨ isDoubleDot s = true) := by
    intro h
    exact (getLast?_dotSegment h hlast).elim hdot he
  have hdrive : isDriveLetter s = false := by
    match s, hlast with
    | [], _ => rfl
    | [_], _ => rfl
    | [a, d], hlast =>
      obtain rfl := Option.some.inj hlast
      exact not_isDriveLetter hcolon hbar
    | _ :: _ :: _ :: _, _ => rfl
  rw [not_or, Bool.not_eq_true, Bool.not_eq_true] at hplain
  simp [pushSegment, hplain, hdrive]

theorem not_startsWithDriveLetter (h : ∀ c ∈ s, isNameUnit c = true) {c : CodeUnit}
    (hlast : s.getLast? = some c) (hc : lower c ∉ [fullStop, unit 'e', colon, verticalBar]) :
    startsWithDriveLetter s = false := by
  simp only [List.mem_cons, List.not_mem_nil, or_false, not_or] at hc
  match s, h, hlast with
  | [], _, _ => rfl
  | [_], _, _ => rfl
  | [a, d], _, hlast =>
    obtain rfl := Option.some.inj hlast
    have hdrive : isDriveLetter [a, d] = false := not_isDriveLetter hc.2.2.1 hc.2.2.2
    simp [startsWithDriveLetter, hdrive]
  | a :: d :: e :: rest, h, _ =>
    obtain ⟨-, hslash, hend, -⟩ := isNameUnit_iff.mp (h e (by simp))
    simp [startsWithDriveLetter, hslash, hend]

theorem decodeURIComponentFuel_of_no_percent {fuel : Nat} (h : percentSign ∉ s)
    (hfuel : s.length ≤ fuel) : decodeURIComponentFuel fuel s = some s := by
  induction s generalizing fuel with
  | nil => cases fuel <;> rfl
  | cons c s ih =>
    cases fuel with
    | zero => cases hfuel
    | succ fuel =>
      rw [List.mem_cons, not_or] at h
      rw [decodeURIComponentFuel, if_neg (Ne.symm h.1), ih h.2 (Nat.le_of_succ_le_succ hfuel)]
      rfl

theorem lower_ne_percentSign {c : CodeUnit} (h : c ≠ percentSign) : lower c ≠ percentSign := by
  unfold lower
  split
  · next hupper =>
    intro hc
    have hnat := congrArg UInt16.toNat hc
    rw [UInt16.toNat_add] at hnat
    simp only [isUpper, Bool.and_eq_true, decide_eq_true_eq, UInt16.le_iff_toNat_le] at hupper
    have hbounds : 0x41 ≤ c.toNat ∧ c.toNat ≤ 0x5A := hupper
    have hsum : (c.toNat + 0x20) % 0x10000 = 0x25 := hnat
    omega
  · exact h

theorem not_hasEscapedSlash (h : percentSign ∉ s) : hasEscapedSlash s = false := by
  unfold hasEscapedSlash
  rw [List.any_eq_false]
  intro tail htail hprefix
  have hmem : percentSign ∈ tail :=
    (List.isPrefixOf_iff_prefix.mp hprefix).subset (by decide)
  obtain ⟨c, hc, hlower⟩ := List.mem_map.mp (((List.mem_tails _ _).mp htail).subset hmem)
  exact lower_ne_percentSign (fun heq => h (heq ▸ hc)) hlower

theorem decodeSegment_of_no_percent (h : percentSign ∉ s) :
    (if hasEscapedSlash s then none else decodeURIComponent s) = some s := by
  rw [not_hasEscapedSlash h]
  exact decodeURIComponentFuel_of_no_percent h (Nat.le_refl _)

/-- A name of plain units, in a directory whose URL ends in a slash, is the name of its file. -/
theorem resolveFileUrl_name {isLocalhost : JsString → Bool} {directory : List JsString}
    (h : ∀ c ∈ s, isNameUnit c = true) {c : CodeUnit} (hlast : s.getLast? = some c)
    (hc : lower c ∉ [fullStop, unit 'e', colon, verticalBar]) :
    resolveFileUrl isLocalhost (directory ++ [[]]) s = some (directory ++ [s]) := by
  have hparent : shortenPath (directory ++ [[]]) = directory := by
    unfold shortenPath
    split
    · next segment hpath =>
      obtain ⟨rfl, rfl⟩ : directory = [] ∧ segment = [] := by
        cases directory with
        | nil => simpa using hpath.symm
        | cons => simp at hpath
      rfl
    · simp
  have hne : s ≠ [] := by
    rintro rfl
    cases hlast
  obtain ⟨first, rest, rfl⟩ := List.exists_cons_of_ne_nil hne
  obtain ⟨-, hslash, hend, -⟩ := isNameUnit_iff.mp (h first List.mem_cons_self)
  unfold resolveFileUrl
  dsimp only
  rw [urlInput_name h, urlScheme_name h]
  dsimp only
  rw [parseFile, hslash, hend, not_startsWithDriveLetter h hlast hc, hparent, parsePath,
    splitOnP_name h]
  exact congrArg some (pushSegment_of_getLast hlast hc)

end

end McpGateway.Js
