import McpGateway.Js.Sha256

/-!
# Base64

`Buffer` encodings of byte sequences, and SHA-256 digests in them.
-/

namespace McpGateway.Js

def base64UrlUnit (n : Nat) : CodeUnit :=
  if n < 26 then .ofNat (0x41 + n)
  else if n < 52 then .ofNat (0x61 + (n - 26))
  else if n < 62 then .ofNat (0x30 + (n - 52))
  else if n = 62 then hyphen else underscore

/-- `buffer.toString('base64url')`: no padding. -/
def base64Url : List UInt8 → JsString
  | [] => []
  | [a] => [a.toNat / 4, a.toNat % 4 * 16].map base64UrlUnit
  | [a, b] =>
    [a.toNat / 4, a.toNat % 4 * 16 + b.toNat / 16, b.toNat % 16 * 4].map base64UrlUnit
  | a :: b :: c :: bytes =>
    [a.toNat / 4, a.toNat % 4 * 16 + b.toNat / 16, b.toNat % 16 * 4 + c.toNat / 64,
      c.toNat % 64].map base64UrlUnit ++ base64Url bytes

/-- `Buffer.from(s, 'ascii')`: the low byte of each code unit. -/
def asciiBytes (s : JsString) : List UInt8 := s.map fun c => .ofNat (c.toNat % 256)

open Sha256 in
def sha256Bytes (bytes : List UInt8) : List UInt8 :=
  let s := digest bytes
  [s.a, s.b, s.c, s.d, s.e, s.f, s.g, s.h].flatMap fun w => bigEndian 4 w.toNat

-- ---------------------------------------------------------------------------
-- Texts that are equal byte for byte
-- ---------------------------------------------------------------------------

theorem utf8_cons_ascii {c : CodeUnit} (hc : c.toNat < 0x80) (s : JsString) :
    utf8 (c :: s) = .ofNat c.toNat :: utf8 s := by
  have hlt : ¬ (0xD800 : CodeUnit) ≤ c := fun h => by
    have hle : 0xD800 ≤ c.toNat := h
    omega
  have hlow : ¬ (0xDC00 : CodeUnit) ≤ c := fun h => by
    have hle : 0xDC00 ≤ c.toNat := h
    omega
  have hunit : utf8Unit c = [.ofNat c.toNat] := by
    simp [utf8Unit, isHighSurrogate, isLowSurrogate, hlt, hlow, utf8CodePoint, hc]
  cases s with
  | nil => exact hunit
  | cons d s => simp [utf8, isHighSurrogate, hlt, hunit]

theorem utf8CodePoint_high {n : Nat} (hn : 0x80 ≤ n) (hmax : n < 0x110000) :
    ∃ b bs, utf8CodePoint n = b :: bs ∧ 0x80 ≤ b.toNat := by
  unfold utf8CodePoint
  rw [if_neg (Nat.not_lt.mpr hn)]
  split
  · refine ⟨_, _, rfl, ?_⟩
    simp only [UInt8.toNat_ofNat']
    omega
  · split
    · refine ⟨_, _, rfl, ?_⟩
      simp only [UInt8.toNat_ofNat']
      omega
    · refine ⟨_, _, rfl, ?_⟩
      simp only [UInt8.toNat_ofNat']
      omega

theorem utf8_cons_high {c : CodeUnit} (hc : 0x80 ≤ c.toNat) (s : JsString) :
    ∃ b bs, utf8 (c :: s) = b :: bs ∧ 0x80 ≤ b.toNat := by
  have hmax := c.toNat_lt
  have hunit : ∃ b bs, utf8Unit c = b :: bs ∧ 0x80 ≤ b.toNat := by
    unfold utf8Unit
    split
    · exact utf8CodePoint_high (by decide) (by decide)
    · exact utf8CodePoint_high hc (by omega)
  obtain ⟨b, bs, hb, hbyte⟩ := hunit
  cases s with
  | nil => exact ⟨b, bs, hb, hbyte⟩
  | cons d s =>
    unfold utf8
    split
    · have hd := d.toNat_lt
      obtain ⟨b', bs', hb', hbyte'⟩ := utf8CodePoint_high
        (n := 0x10000 + (c.toNat - 0xD800) * 0x400 + (d.toNat - 0xDC00)) (by omega) (by
          have hhigh : c.toNat ≤ 0xDBFF := by
            rename_i h
            simp only [isHighSurrogate, Bool.and_eq_true, decide_eq_true_eq] at h
            exact h.1.2
          have hlow : d.toNat ≤ 0xDFFF := by
            rename_i h
            simp only [isLowSurrogate, Bool.and_eq_true, decide_eq_true_eq] at h
            exact h.2.2
          omega)
      exact ⟨b', bs' ++ utf8 s, by rw [hb', List.cons_append], hbyte'⟩
    · exact ⟨b, bs ++ utf8 (d :: s), by rw [hb, List.cons_append], hbyte⟩

theorem eq_of_utf8_eq {a b : JsString} (ha : ∀ c ∈ a, c.toNat < 0x80) (h : utf8 a = utf8 b) :
    a = b := by
  induction a generalizing b with
  | nil =>
    cases b with
    | nil => rfl
    | cons d b =>
      rcases Nat.lt_or_ge d.toNat 0x80 with hd | hd
      · rw [utf8_cons_ascii hd] at h
        cases h
      · obtain ⟨_, _, hb, -⟩ := utf8_cons_high hd b
        rw [hb] at h
        cases h
  | cons c a ih =>
    have hc := ha c List.mem_cons_self
    rw [utf8_cons_ascii hc] at h
    cases b with
    | nil => cases h
    | cons d b =>
      rcases Nat.lt_or_ge d.toNat 0x80 with hd | hd
      · rw [utf8_cons_ascii hd] at h
        obtain ⟨hbyte, hrest⟩ := List.cons.inj h
        have hval : c.toNat = d.toNat := by
          have hnat := congrArg UInt8.toNat hbyte
          simp only [UInt8.toNat_ofNat'] at hnat
          omega
        rw [UInt16.toNat_inj.mp hval, ih (fun e he => ha e (List.mem_cons_of_mem _ he)) hrest]
      · obtain ⟨_, _, hb, hbyte⟩ := utf8_cons_high hd b
        rw [hb] at h
        have hval := congrArg UInt8.toNat (List.cons.inj h).1
        simp only [UInt8.toNat_ofNat'] at hval
        omega

theorem base64UrlUnit_ascii (n : Nat) : (base64UrlUnit n).toNat < 0x80 := by
  unfold base64UrlUnit
  repeat' split
  all_goals try simp only [UInt16.toNat_ofNat']; omega
  all_goals decide

theorem base64Url_ascii (bytes : List UInt8) : ∀ c ∈ base64Url bytes, c.toNat < 0x80 := by
  induction bytes using base64Url.induct with
  | case1 => simp [base64Url]
  | case2 a => simp [base64Url, base64UrlUnit_ascii]
  | case3 a b => simp [base64Url, base64UrlUnit_ascii]
  | case4 a b c bytes ih =>
    intro d hd
    rcases List.mem_append.mp hd with hd | hd
    · obtain ⟨n, -, rfl⟩ := List.mem_map.mp hd
      exact base64UrlUnit_ascii n
    · exact ih d hd

-- ---------------------------------------------------------------------------
-- Padded texts
-- ---------------------------------------------------------------------------

def base64Unit (n : Nat) : CodeUnit :=
  if n = 62 then plusSign else if n = 63 then slash else base64UrlUnit n

/-- `buffer.toString('base64')`. -/
def base64 : List UInt8 → JsString
  | [] => []
  | [a] => [a.toNat / 4, a.toNat % 4 * 16].map base64Unit ++ [equalsSign, equalsSign]
  | [a, b] =>
    [a.toNat / 4, a.toNat % 4 * 16 + b.toNat / 16, b.toNat % 16 * 4].map base64Unit ++ [equalsSign]
  | a :: b :: c :: bytes =>
    [a.toNat / 4, a.toNat % 4 * 16 + b.toNat / 16, b.toNat % 16 * 4 + c.toNat / 64,
      c.toNat % 64].map base64Unit ++ base64 bytes

def base64Value (c : CodeUnit) : Option Nat :=
  if isUpper c then some (c.toNat - 0x41)
  else if isLower c then some (c.toNat - 0x61 + 26)
  else if isDigit c then some (c.toNat - 0x30 + 52)
  else if c = plusSign ∨ c = hyphen then some 62
  else if c = slash ∨ c = underscore then some 63
  else none

/-- `Buffer.from(text, 'base64')` of a padded text. -/
def base64Bytes : JsString → Option (List UInt8)
  | [] => some []
  | a :: b :: c :: d :: s => do
    let a ← base64Value a
    let b ← base64Value b
    let first := UInt8.ofNat (a * 4 + b / 16)
    if c = equalsSign then
      if d = equalsSign ∧ s = [] then return [first] else none
    else do
      let c ← base64Value c
      let second := UInt8.ofNat (b % 16 * 16 + c / 4)
      if d = equalsSign then
        if s = [] then return [first, second] else none
      else do
        let d ← base64Value d
        let rest ← base64Bytes s
        return first :: second :: .ofNat (c % 4 * 64 + d) :: rest
  | _ => none

theorem base64Value_unit {n : Nat} (h : n < 64) : base64Value (base64Unit n) = some n :=
  (by decide : ∀ n < 64, base64Value (base64Unit n) = some n) n h

theorem base64Unit_ne_equalsSign {n : Nat} (h : n < 64) : base64Unit n ≠ equalsSign :=
  (by decide : ∀ n < 64, base64Unit n ≠ equalsSign) n h

theorem byte_eq {a : UInt8} {n : Nat} (h : n = a.toNat) : UInt8.ofNat n = a := by
  rw [h, UInt8.ofNat_toNat]

theorem base64Bytes_base64 (bytes : List UInt8) : base64Bytes (base64 bytes) = some bytes := by
  induction bytes using base64.induct with
  | case1 => rfl
  | case2 a =>
    have ha := a.toNat_lt
    have hfirst : a.toNat / 4 * 4 + a.toNat % 4 * 16 / 16 = a.toNat := by omega
    simp only [base64, List.map_cons, List.map_nil, List.cons_append, List.nil_append, base64Bytes,
      base64Value_unit (show a.toNat / 4 < 64 by omega),
      base64Value_unit (show a.toNat % 4 * 16 < 64 by omega), Option.bind_eq_bind,
      Option.bind_some, byte_eq hfirst]
    rfl
  | case3 a b =>
    have ha := a.toNat_lt
    have hb := b.toNat_lt
    have hfirst : a.toNat / 4 * 4 + (a.toNat % 4 * 16 + b.toNat / 16) / 16 = a.toNat := by omega
    have hsecond : (a.toNat % 4 * 16 + b.toNat / 16) % 16 * 16 + b.toNat % 16 * 4 / 4 = b.toNat := by
      omega
    simp only [base64, List.map_cons, List.map_nil, List.cons_append, List.nil_append, base64Bytes,
      base64Value_unit (show a.toNat / 4 < 64 by omega),
      base64Value_unit (show a.toNat % 4 * 16 + b.toNat / 16 < 64 by omega),
      base64Value_unit (show b.toNat % 16 * 4 < 64 by omega), Option.bind_eq_bind,
      Option.bind_some, byte_eq hfirst, byte_eq hsecond,
      if_neg (base64Unit_ne_equalsSign (show b.toNat % 16 * 4 < 64 by omega))]
    rfl
  | case4 a b c bytes ih =>
    have ha := a.toNat_lt
    have hb := b.toNat_lt
    have hc := c.toNat_lt
    have hfirst : a.toNat / 4 * 4 + (a.toNat % 4 * 16 + b.toNat / 16) / 16 = a.toNat := by omega
    have hsecond : (a.toNat % 4 * 16 + b.toNat / 16) % 16 * 16 +
        (b.toNat % 16 * 4 + c.toNat / 64) / 4 = b.toNat := by omega
    have hthird : (b.toNat % 16 * 4 + c.toNat / 64) % 4 * 64 + c.toNat % 64 = c.toNat := by omega
    simp only [base64, List.map_cons, List.map_nil, List.cons_append, List.nil_append, base64Bytes,
      base64Value_unit (show a.toNat / 4 < 64 by omega),
      base64Value_unit (show a.toNat % 4 * 16 + b.toNat / 16 < 64 by omega),
      base64Value_unit (show b.toNat % 16 * 4 + c.toNat / 64 < 64 by omega),
      base64Value_unit (show c.toNat % 64 < 64 by omega), Option.bind_eq_bind, Option.bind_some,
      byte_eq hfirst, byte_eq hsecond, byte_eq hthird, ih,
      if_neg (base64Unit_ne_equalsSign (show b.toNat % 16 * 4 + c.toNat / 64 < 64 by omega)),
      if_neg (base64Unit_ne_equalsSign (show c.toNat % 64 < 64 by omega))]
    rfl

end McpGateway.Js
