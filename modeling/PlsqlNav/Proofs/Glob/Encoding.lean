import PlsqlNav.Glob

/-! Characters as the bytes that stand for them. Bytes that were cut out of a text between whole
characters are themselves whole characters, and letter case is the same for both. -/
namespace PlsqlNav.Glob

def encode (cs : List Char) : Bytes := cs.flatMap String.utf8EncodeChar

theorem utf8_eq (s : String) : utf8 s = encode s.toList := rfl

@[simp] theorem encode_nil : encode [] = [] := rfl

@[simp] theorem encode_cons (c : Char) (cs : List Char) :
    encode (c :: cs) = String.utf8EncodeChar c ++ encode cs := List.flatMap_cons

@[simp] theorem encode_append (cs ds : List Char) : encode (cs ++ ds) = encode cs ++ encode ds :=
  List.flatMap_append

theorem encode_eq_nil_iff {cs : List Char} : encode cs = [] ↔ cs = [] := by
  cases cs with
  | nil => simp
  | cons c cs => simp

section Whole
variable {cs ds : List Char} {a b before after : Bytes} {c d : Char}

/-- No character's bytes are the front of another's. -/
theorem encodeChar_injective (h : String.utf8EncodeChar c ++ a = String.utf8EncodeChar d ++ b) :
    c = d := by
  have hdecode := congrArg (fun bytes => ByteArray.utf8DecodeChar? bytes.toByteArray 0) h
  simpa only [List.toByteArray_append, ByteArray.utf8DecodeChar?_utf8EncodeChar_append,
    Option.some.injEq] using hdecode

theorem exists_of_encode_prefix (h : encode cs = encode ds ++ after) :
    ∃ es, cs = ds ++ es ∧ encode es = after := by
  induction ds generalizing cs with
  | nil => exact ⟨cs, rfl, h⟩
  | cons d ds ih =>
    cases cs with
    | nil => simp at h
    | cons c cs =>
      rw [encode_cons, encode_cons, List.append_assoc] at h
      have hcd := encodeChar_injective h
      rw [hcd, List.append_cancel_left_eq] at h
      obtain ⟨es, hes, hafter⟩ := ih h
      exact ⟨es, by rw [hcd, hes, List.cons_append], hafter⟩

theorem encode_injective (h : encode cs = encode ds) : cs = ds := by
  obtain ⟨es, hes, hnil⟩ := exists_of_encode_prefix (h.trans (List.append_nil _).symm)
  rw [hes, encode_eq_nil_iff.mp hnil, List.append_nil]

/-- Only the first byte of a character can start one. -/
theorem eq_nil_of_encodeChar_split (h : String.utf8EncodeChar c = before ++ after)
    (hbefore : before ≠ []) (hd : after ++ a = String.utf8EncodeChar d ++ b) : after = [] := by
  cases after with
  | nil => rfl
  | cons u after =>
    obtain ⟨v, rest, hv⟩ := List.exists_cons_of_ne_nil (String.utf8EncodeChar_ne_nil (c := d))
    have hu : u = v := by
      rw [hv] at hd
      exact (List.cons.inj hd).1
    have hfirst : v.IsUTF8FirstByte := by
      have := UInt8.isUTF8FirstByte_getElem_zero_utf8EncodeChar (c := d)
      simpa only [hv, List.getElem_cons_zero] using this
    have hlength : before.length < (String.utf8EncodeChar c).length := by
      rw [h, List.length_append, List.length_cons]
      omega
    have hat : (String.utf8EncodeChar c)[before.length] = u := by
      simp [h]
    rw [← hu, ← hat, UInt8.isUTF8FirstByte_getElem_utf8EncodeChar] at hfirst
    exact absurd (List.length_eq_zero_iff.mp hfirst) hbefore

theorem exists_of_encode_suffix (h : encode cs = before ++ (String.utf8EncodeChar d ++ after)) :
    ∃ es fs, cs = es ++ fs ∧ encode es = before ∧ encode fs = String.utf8EncodeChar d ++ after := by
  induction cs generalizing before with
  | nil => simp at h
  | cons c cs ih =>
    by_cases hbefore : before = []
    · exact ⟨[], c :: cs, rfl, hbefore.symm, by rw [h, hbefore]; rfl⟩
    rw [encode_cons] at h
    obtain ⟨before', rfl, hrest⟩ : ∃ before', before = String.utf8EncodeChar c ++ before' ∧
        encode cs = before' ++ (String.utf8EncodeChar d ++ after) := by
      rcases List.append_eq_append_iff.mp h with ⟨x, hx, hrest⟩ | ⟨x, hx, hrest⟩
      · exact ⟨x, hx, hrest⟩
      · have hnil := eq_nil_of_encodeChar_split hx hbefore hrest.symm
        rw [hnil, List.append_nil] at hx
        rw [hnil, List.nil_append] at hrest
        exact ⟨[], by rw [hx, List.append_nil], hrest.symm⟩
    obtain ⟨es, fs, rfl, rfl, hfs⟩ := ih hrest
    exact ⟨c :: es, fs, rfl, encode_cons c es, hfs⟩

/-- The bytes of some characters that stand in a text stand there as these characters. -/
theorem exists_of_encode_infix (h : encode cs = before ++ (encode ds ++ after)) (hds : ds ≠ []) :
    ∃ es fs, cs = es ++ (ds ++ fs) ∧ encode es = before ∧ encode fs = after := by
  obtain ⟨d, ds, rfl⟩ := List.exists_cons_of_ne_nil hds
  rw [encode_cons, List.append_assoc] at h
  obtain ⟨es, gs, hcs, hes, hgs⟩ := exists_of_encode_suffix h
  rw [← List.append_assoc, ← encode_cons] at hgs
  obtain ⟨fs, hfs, hafter⟩ := exists_of_encode_prefix hgs
  exact ⟨es, fs, by rw [hcs, hfs], hes, hafter⟩

end Whole

section Case

def lowerBytes (bytes : Bytes) : Bytes := bytes.map lowerByte

@[simp] theorem lowerBytes_append (a b : Bytes) : lowerBytes (a ++ b) = lowerBytes a ++ lowerBytes b :=
  List.map_append

theorem toNat_lowerByte (b : UInt8) :
    (lowerByte b).toNat = if 65 ≤ b.toNat ∧ b.toNat ≤ 90 then b.toNat + 32 else b.toNat := by
  rw [lowerByte]
  by_cases h : 65 ≤ b ∧ b ≤ 90
  · have hn : 65 ≤ b.toNat ∧ b.toNat ≤ 90 := h
    rw [if_pos h, if_pos hn, UInt8.toNat_add]
    change (b.toNat + 32) % 256 = _
    omega
  · have hn : ¬ (65 ≤ b.toNat ∧ b.toNat ≤ 90) := h
    rw [if_neg h, if_neg hn]

theorem lowerByte_eq_slash_iff {b : UInt8} : lowerByte b = slash ↔ b = slash := by
  rw [← UInt8.toNat_inj, ← UInt8.toNat_inj, toNat_lowerByte]
  change _ = 47 ↔ _ = 47
  split <;> omega

theorem slash_mem_lowerBytes {bytes : Bytes} : slash ∈ lowerBytes bytes ↔ slash ∈ bytes := by
  simp [lowerBytes, lowerByte_eq_slash_iff]

theorem encodeChar_ascii {c : Char} (h : c.toNat ≤ 127) :
    String.utf8EncodeChar c = [UInt8.ofNat c.toNat] := by
  rw [String.utf8EncodeChar]
  exact if_pos h

theorem le_of_mem_encodeChar {c : Char} {b : UInt8} (h : 127 < c.toNat)
    (hb : b ∈ String.utf8EncodeChar c) : 128 ≤ b.toNat := by
  rw [String.utf8EncodeChar] at hb
  have hc : ¬ c.val.toNat ≤ 127 := Nat.not_le.mpr h
  simp only [hc, if_false] at hb
  split at hb
  · simp only [List.mem_cons, List.not_mem_nil, or_false] at hb
    rcases hb with rfl | rfl <;> simp only [UInt8.toNat_ofNat'] <;> omega
  · split at hb
    · simp only [List.mem_cons, List.not_mem_nil, or_false] at hb
      rcases hb with rfl | rfl | rfl <;> simp only [UInt8.toNat_ofNat'] <;> omega
    · simp only [List.mem_cons, List.not_mem_nil, or_false] at hb
      rcases hb with rfl | rfl | rfl | rfl <;> simp only [UInt8.toNat_ofNat'] <;> omega

theorem toNat_toLower (c : Char) :
    c.toLower.toNat = if 65 ≤ c.toNat ∧ c.toNat ≤ 90 then c.toNat + 32 else c.toNat := by
  by_cases h : c.val ≥ 'A'.val ∧ c.val ≤ 'Z'.val
  · have hn : 65 ≤ c.toNat ∧ c.toNat ≤ 90 := h
    have hval : c.toLower.val = c.val + 32 := congrArg Char.val (dif_pos h)
    have hadd : c.toLower.toNat = (c.toNat + 32) % 2 ^ 32 := congrArg UInt32.toNat hval
    rw [if_pos hn, hadd]
    omega
  · have hn : ¬ (65 ≤ c.toNat ∧ c.toNat ≤ 90) := h
    have hsame : c.toLower = c := dif_neg h
    rw [if_neg hn, hsame]

theorem toLower_eq_self {c : Char} (h : 127 < c.toNat) : c.toLower = c := by
  rw [← Char.toNat_inj, toNat_toLower, if_neg (by omega)]

theorem lowerBytes_encodeChar (c : Char) :
    lowerBytes (String.utf8EncodeChar c) = String.utf8EncodeChar c.toLower := by
  by_cases h : c.toNat ≤ 127
  · have hlower : c.toLower.toNat ≤ 127 := by
      rw [toNat_toLower]
      split <;> omega
    have hbyte (n : Nat) (hn : n ≤ 127) : (UInt8.ofNat n).toNat = n := by
      rw [UInt8.toNat_ofNat']
      omega
    rw [encodeChar_ascii h, encodeChar_ascii hlower, lowerBytes, List.map_singleton,
      List.singleton_inj, ← UInt8.toNat_inj, toNat_lowerByte, hbyte _ h, hbyte _ hlower,
      toNat_toLower]
  · have hfixed : ∀ b ∈ String.utf8EncodeChar c, lowerByte b = b := by
      intro b hb
      have := le_of_mem_encodeChar (Nat.lt_of_not_le h) hb
      rw [← UInt8.toNat_inj, toNat_lowerByte, if_neg (by omega)]
    rw [toLower_eq_self (Nat.lt_of_not_le h), lowerBytes, List.map_congr_left hfixed, List.map_id']

theorem lowerBytes_encode (cs : List Char) : lowerBytes (encode cs) = encode (cs.map Char.toLower) := by
  induction cs with
  | nil => rfl
  | cons c cs ih =>
    rw [encode_cons, lowerBytes_append, lowerBytes_encodeChar, ih, List.map_cons, encode_cons]

end Case

theorem slash_mem_encode {cs : List Char} : slash ∈ encode cs ↔ '/' ∈ cs := by
  rw [encode, List.mem_flatMap]
  constructor
  · rintro ⟨c, hc, hslash⟩
    have hascii : c.toNat ≤ 127 := by
      apply Nat.le_of_not_lt
      intro h
      exact absurd (le_of_mem_encodeChar h hslash) (by decide)
    rw [encodeChar_ascii hascii, List.mem_singleton, ← UInt8.toNat_inj, UInt8.toNat_ofNat'] at hslash
    have hnat : '/'.toNat = c.toNat := by
      change 47 = c.toNat
      change 47 = _ at hslash
      omega
    rw [Char.toNat_inj] at hnat
    exact hnat ▸ hc
  · exact fun h => ⟨'/', h, by decide⟩

end PlsqlNav.Glob
