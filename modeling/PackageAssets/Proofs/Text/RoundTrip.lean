import PackageAssets.Text.Utf8

/-!
# Text read back from its bytes

The machine that reads UTF-8 is between two characters before and after the
bytes of a character, and has added just that character. So text is read back
from its own bytes, and from terminated bytes up to its first NUL.
-/
namespace PackageAssets.Text

/-- The text before its first NUL, or all of it. -/
def beforeNul (text : String) : String := String.ofList (text.toList.takeWhile (· ≠ '\x00'))

theorem toNat_ofNat_of_lt {n : Nat} (h : n < 256) : (UInt8.ofNat n).toNat = n := by
  rw [UInt8.toNat_ofNat']
  exact Nat.mod_eq_of_lt h

theorem ofNat_lt_iff {n : Nat} (h : n < 256) (b : UInt8) : UInt8.ofNat n < b ↔ n < b.toNat := by
  rw [UInt8.lt_iff_toNat_lt, toNat_ofNat_of_lt h]

theorem ofNat_eq_iff {n : Nat} (h : n < 256) (b : UInt8) : UInt8.ofNat n = b ↔ n = b.toNat := by
  rw [← UInt8.toNat_inj, toNat_ofNat_of_lt h]

/-- The numbers of characters leave out the surrogates. -/
theorem toNat_bounds (c : Char) :
    c.toNat < 0xD800 ∨ (0xDFFF < c.toNat ∧ c.toNat < 0x110000) := c.valid

/-- A first byte that owes bytes, and the byte of the six bits `next` that may follow it. -/
def Leads (lead owed value next : Nat) : Prop :=
  ∃ low high, first (UInt8.ofNat lead) = ([], .within owed value low high) ∧
    low.toNat ≤ next + 128 ∧ next + 128 ≤ high.toNat

theorem leads_two {v : Nat} (low : 0x80 ≤ v) (high : v < 0x800) :
    Leads (v / 64 % 32 + 192) 1 (v / 64) (v % 64) := by
  refine ⟨0x80, 0xBF, ?_, ?_, ?_⟩
  · have hlead : v / 64 % 32 + 192 < 256 := by omega
    have hvalue : (v / 64 % 32 + 192) % 32 = v / 64 := by omega
    simp only [first, ofNat_lt_iff hlead, toNat_ofNat_of_lt hlead, hvalue]
    rw [if_neg, if_neg, if_pos]
    all_goals simp only [UInt8.reduceToNat]; omega
  all_goals simp only [UInt8.reduceToNat]; omega

theorem leads_three {v : Nat} (low : 0x800 ≤ v) (high : v < 0x10000)
    (scalar : v < 0xD800 ∨ 0xDFFF < v) :
    Leads (v / 4096 % 16 + 224) 2 (v / 4096) (v / 64 % 64) := by
  have hlead : v / 4096 % 16 + 224 < 256 := by omega
  have hvalue : (v / 4096 % 16 + 224) % 16 = v / 4096 := by omega
  unfold Leads
  simp only [first, ofNat_lt_iff hlead, ofNat_eq_iff hlead, toNat_ofNat_of_lt hlead, hvalue,
    UInt8.reduceToNat]
  rw [if_neg (by omega), if_neg (by omega), if_neg (by omega)]
  by_cases lowest : v / 4096 = 0
  · rw [if_pos (by omega), lowest]
    exact ⟨0xA0, 0xBF, rfl, by simp only [UInt8.reduceToNat]; omega,
      by simp only [UInt8.reduceToNat]; omega⟩
  · rw [if_neg (by omega)]
    by_cases beforeSurrogates : v / 4096 = 13
    · rw [if_pos (by omega), beforeSurrogates]
      exact ⟨0x80, 0x9F, rfl, by simp only [UInt8.reduceToNat]; omega,
        by simp only [UInt8.reduceToNat]; omega⟩
    · rw [if_neg (by omega), if_pos (by omega)]
      exact ⟨0x80, 0xBF, rfl, by simp only [UInt8.reduceToNat]; omega,
        by simp only [UInt8.reduceToNat]; omega⟩

theorem leads_four {v : Nat} (low : 0x10000 ≤ v) (high : v < 0x110000) :
    Leads (v / 262144 % 8 + 240) 3 (v / 262144) (v / 4096 % 64) := by
  have hlead : v / 262144 % 8 + 240 < 256 := by omega
  have hvalue : (v / 262144 % 8 + 240) % 8 = v / 262144 := by omega
  unfold Leads
  simp only [first, ofNat_lt_iff hlead, ofNat_eq_iff hlead, toNat_ofNat_of_lt hlead, hvalue,
    UInt8.reduceToNat]
  rw [if_neg (by omega), if_neg (by omega), if_neg (by omega), if_neg (by omega),
    if_neg (by omega), if_neg (by omega)]
  by_cases lowest : v / 262144 = 0
  · rw [if_pos (by omega), lowest]
    exact ⟨0x90, 0xBF, rfl, by simp only [UInt8.reduceToNat]; omega,
      by simp only [UInt8.reduceToNat]; omega⟩
  · rw [if_neg (by omega)]
    by_cases highest : v / 262144 = 4
    · rw [if_neg (by omega), if_pos (by omega), highest]
      exact ⟨0x80, 0x8F, rfl, by simp only [UInt8.reduceToNat]; omega,
        by simp only [UInt8.reduceToNat]; omega⟩
    · rw [if_pos (by omega)]
      exact ⟨0x80, 0xBF, rfl, by simp only [UInt8.reduceToNat]; omega,
        by simp only [UInt8.reduceToNat]; omega⟩

theorem step_within {owed value bits : Nat} {low high : UInt8} (six : bits < 64)
    (above : low.toNat ≤ bits + 128) (below : bits + 128 ≤ high.toNat) :
    step (.within owed value low high) (UInt8.ofNat (bits + 128)) =
      if owed ≤ 1 then ([Char.ofNat (value * 64 + bits)], .between)
      else ([], .within (owed - 1) (value * 64 + bits) 0x80 0xBF) := by
  have hbyte : bits + 128 < 256 := by omega
  have inRange : low ≤ UInt8.ofNat (bits + 128) ∧ UInt8.ofNat (bits + 128) ≤ high := by
    rw [UInt8.le_iff_toNat_le, UInt8.le_iff_toNat_le, toNat_ofNat_of_lt hbyte]
    exact ⟨above, below⟩
  have hbits : (bits + 128) % 64 = bits := by omega
  rw [step, if_pos inRange, toNat_ofNat_of_lt hbyte, hbits]

/-- After its first continuation byte, a character goes on with bytes of any six bits. -/
theorem step_continuing {owed value bits : Nat} (six : bits < 64) :
    step (.within owed value 0x80 0xBF) (UInt8.ofNat (bits + 128)) =
      if owed ≤ 1 then ([Char.ofNat (value * 64 + bits)], .between)
      else ([], .within (owed - 1) (value * 64 + bits) 0x80 0xBF) := by
  apply step_within six
  · simp only [UInt8.reduceToNat]
    omega
  · simp only [UInt8.reduceToNat]
    omega

theorem feed_eq (chars : List Char) (place : Place) (b : UInt8) :
    feed (chars, place) b = ((step place b).1.reverse ++ chars, (step place b).2) := rfl

theorem step_between (b : UInt8) : step .between b = first b := rfl

theorem feed_utf8EncodeChar (c : Char) (soFar : List Char) :
    (String.utf8EncodeChar c).foldl feed (soFar, .between) = (c :: soFar, .between) := by
  have bounds := toNat_bounds c
  have back : Char.ofNat c.toNat = c := Char.ofNat_toNat c
  have number : c.val.toNat = c.toNat := rfl
  simp only [String.utf8EncodeChar, number]
  generalize c.toNat = v at bounds back
  by_cases one : v ≤ 0x7F
  · have hb : UInt8.ofNat v < 0x80 := (ofNat_lt_iff (by omega) _).mpr (by
      simp only [UInt8.reduceToNat]; omega)
    rw [if_pos one, List.foldl_cons, List.foldl_nil, feed_eq, step_between, first, if_pos hb,
      toNat_ofNat_of_lt (by omega), back]
    rfl
  rw [if_neg one]
  by_cases two : v ≤ 0x7FF
  · obtain ⟨low, high, hfirst, above, below⟩ := leads_two (v := v) (by omega) (by omega)
    have whole : v / 64 * 64 + v % 64 = v := by omega
    rw [if_pos two]
    simp only [List.foldl_cons, List.foldl_nil, feed_eq, step_between, hfirst,
      step_within (Nat.mod_lt v (by decide)) above below, whole, back]
    rfl
  rw [if_neg two]
  by_cases three : v ≤ 0xFFFF
  · obtain ⟨low, high, hfirst, above, below⟩ :=
      leads_three (v := v) (by omega) (by omega) (by omega)
    have whole : (v / 4096 * 64 + v / 64 % 64) * 64 + v % 64 = v := by omega
    rw [if_pos three]
    simp only [List.foldl_cons, List.foldl_nil, feed_eq, step_between, hfirst,
      step_within (Nat.mod_lt (v / 64) (by decide)) above below, Nat.reduceLeDiff, if_false,
      step_continuing (Nat.mod_lt v (by decide)), whole, back]
    rfl
  · obtain ⟨low, high, hfirst, above, below⟩ := leads_four (v := v) (by omega) (by omega)
    have whole : ((v / 262144 * 64 + v / 4096 % 64) * 64 + v / 64 % 64) * 64 + v % 64 = v := by
      omega
    rw [if_neg three]
    simp only [List.foldl_cons, List.foldl_nil, feed_eq, step_between, hfirst,
      step_within (Nat.mod_lt (v / 4096) (by decide)) above below, Nat.reduceLeDiff, if_false,
      step_continuing (Nat.mod_lt (v / 64) (by decide)),
      step_continuing (Nat.mod_lt v (by decide)), Nat.reduceSub, whole, back]
    rfl

theorem foldl_feed_chars (chars soFar : List Char) :
    (chars.flatMap String.utf8EncodeChar).foldl feed (soFar, .between) =
      (chars.reverse ++ soFar, .between) := by
  induction chars generalizing soFar with
  | nil => rfl
  | cons c rest ih =>
    rw [List.flatMap_cons, List.foldl_append, feed_utf8EncodeChar, ih, List.reverse_cons,
      List.append_assoc, List.singleton_append]

theorem ofBytes_utf8 (text : String) : ofBytes (utf8 text) = text := by
  rw [ofBytes, utf8, foldl_feed_chars, List.append_nil, close, List.reverse_reverse,
    String.ofList_toList]

theorem utf8_injective {a b : String} (h : utf8 a = utf8 b) : a = b := by
  rw [← ofBytes_utf8 a, h, ofBytes_utf8]

theorem ofNat_ne_zero {n : Nat} (positive : 0 < n) (h : n < 256) : UInt8.ofNat n ≠ 0 := by
  intro hzero
  have : n = 0 := (ofNat_eq_iff h 0).mp hzero
  omega

theorem ne_zero_of_mem_utf8EncodeChar {c : Char} (nonNul : c ≠ '\x00') :
    ∀ b ∈ String.utf8EncodeChar c, b ≠ 0 := by
  have bounds := toNat_bounds c
  have positive : 0 < c.toNat := by
    apply Nat.pos_of_ne_zero
    intro hzero
    have back : Char.ofNat c.toNat = c := Char.ofNat_toNat c
    rw [hzero] at back
    exact nonNul back.symm
  have number : c.val.toNat = c.toNat := rfl
  simp only [String.utf8EncodeChar, number]
  split
  · simpa using ofNat_ne_zero positive (by omega)
  have tail : ∀ n, UInt8.ofNat (n % 64 + 128) ≠ 0 := fun n =>
    ofNat_ne_zero (by omega) (by omega)
  split
  · have lead : UInt8.ofNat (c.toNat / 64 % 32 + 192) ≠ 0 := ofNat_ne_zero (by omega) (by omega)
    simp only [List.forall_mem_cons]
    exact ⟨lead, tail _, by simp⟩
  split
  · have lead : UInt8.ofNat (c.toNat / 4096 % 16 + 224) ≠ 0 := ofNat_ne_zero (by omega) (by omega)
    simp only [List.forall_mem_cons]
    exact ⟨lead, tail _, tail _, by simp⟩
  · have lead : UInt8.ofNat (c.toNat / 262144 % 8 + 240) ≠ 0 :=
      ofNat_ne_zero (by omega) (by omega)
    simp only [List.forall_mem_cons]
    exact ⟨lead, tail _, tail _, tail _, by simp⟩

/-- Bytes up to a zero behind the bytes of characters are those of the characters up to a NUL. -/
theorem untilZero_chars (chars : List Char) (rest : List UInt8) :
    untilZero (chars.flatMap String.utf8EncodeChar ++ 0 :: rest) =
      (chars.takeWhile (· ≠ '\x00')).flatMap String.utf8EncodeChar := by
  induction chars with
  | nil => rfl
  | cons c others ih =>
    by_cases nul : c = '\x00'
    · subst nul
      rfl
    · have plain : ∀ b ∈ String.utf8EncodeChar c, decide (b ≠ 0) = true := fun b hb =>
        decide_eq_true (ne_zero_of_mem_utf8EncodeChar nul b hb)
      have kept : (c :: others).takeWhile (· ≠ '\x00') = c :: others.takeWhile (· ≠ '\x00') := by
        simp [nul]
      rw [untilZero] at ih ⊢
      rw [kept, List.flatMap_cons, List.append_assoc, List.takeWhile_append_of_pos plain, ih,
        List.flatMap_cons]

/-- Terminated text, whatever stands behind its terminator, reads as its part before a NUL. -/
theorem ofBytes_untilZero_utf8 (text : String) (rest : List UInt8) :
    ofBytes (untilZero (utf8 text ++ 0 :: rest)) = beforeNul text := by
  have cut : untilZero (utf8 text ++ 0 :: rest) = utf8 (beforeNul text) := by
    rw [utf8, untilZero_chars, utf8, beforeNul, String.toList_ofList]
  rw [cut, ofBytes_utf8]

theorem beforeNul_eq_self {text : String} (nulFree : '\x00' ∉ text.toList) :
    beforeNul text = text := by
  have plain : ∀ c ∈ text.toList, decide (c ≠ '\x00') = true := fun c hc =>
    decide_eq_true fun h => nulFree (h ▸ hc)
  have all : (text.toList ++ []).takeWhile (fun c => decide (c ≠ '\x00')) = text.toList ++ [] :=
    List.takeWhile_append_of_pos plain
  rw [List.append_nil] at all
  rw [beforeNul, all, String.ofList_toList]

end PackageAssets.Text
