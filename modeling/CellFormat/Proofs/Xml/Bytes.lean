import CellFormat.Xml.Reader
/-!
# Texts as bytes

A character outside ASCII has only bytes that no ASCII character has. So the marks of XML can be looked for in
the bytes of a text as well as in its characters, and a text that is cut at marks is cut between characters.
-/

namespace CellFormat.Xml

def encode (cs : List Char) : Bytes := cs.flatMap String.utf8EncodeChar

variable {c : Char} {cs : List Char} {b : UInt8}

@[simp] theorem encode_nil : encode [] = [] := rfl

@[simp] theorem encode_append (left right : List Char) : encode (left ++ right) = encode left ++ encode right :=
  List.flatMap_append

theorem utf8EncodeChar_of_lt (h : c.toNat < 128) : String.utf8EncodeChar c = [byte c] := by
  have hle : c.val.toNat ≤ 0x7f := Nat.le_of_lt_succ h
  simp only [String.utf8EncodeChar, if_pos hle]
  rfl

theorem encode_cons_of_lt (h : c.toNat < 128) (cs : List Char) : encode (c :: cs) = byte c :: encode cs := by
  rw [encode, List.flatMap_cons, utf8EncodeChar_of_lt h]
  rfl

theorem le_of_mem_utf8EncodeChar (h : 128 ≤ c.toNat) (hb : b ∈ String.utf8EncodeChar c) : 128 ≤ b.toNat := by
  have hle : ¬c.val.toNat ≤ 0x7f := Nat.not_le.2 h
  simp only [String.utf8EncodeChar, if_neg hle] at hb
  split at hb
  · simp only [List.mem_cons, List.not_mem_nil, or_false] at hb
    rcases hb with rfl | rfl <;> rw [UInt8.toNat_ofNat'] <;> omega
  · split at hb
    · simp only [List.mem_cons, List.not_mem_nil, or_false] at hb
      rcases hb with rfl | rfl | rfl <;> rw [UInt8.toNat_ofNat'] <;> omega
    · simp only [List.mem_cons, List.not_mem_nil, or_false] at hb
      rcases hb with rfl | rfl | rfl | rfl <;> rw [UInt8.toNat_ofNat'] <;> omega

/-- What holds of the ASCII characters of a text and of all bytes beyond ASCII holds of the bytes of the
text. -/
theorem forall_mem_encode {p : UInt8 → Bool} (hascii : ∀ c ∈ cs, c.toNat < 128 → p (byte c) = true)
    (hhigh : ∀ b : UInt8, 128 ≤ b.toNat → p b = true) : ∀ b ∈ encode cs, p b = true := by
  intro b hb
  obtain ⟨c, hc, hb⟩ := List.mem_flatMap.1 hb
  by_cases hlt : c.toNat < 128
  · rw [utf8EncodeChar_of_lt hlt, List.mem_singleton] at hb
    rw [hb]
    exact hascii c hc hlt
  · exact hhigh b (le_of_mem_utf8EncodeChar (Nat.not_lt.1 hlt) hb)

theorem toNat_byte (h : c.toNat < 128) : (byte c).toNat = c.toNat := by
  have hmod : (byte c).toNat = c.toNat % 2 ^ 8 := UInt32.toNat_toUInt8 c.val
  omega

theorem byte_injective {x : Char} (hc : c.toNat < 128) (hx : x.toNat < 128) (h : byte c = byte x) : c = x := by
  have hnat := congrArg UInt8.toNat h
  rw [toNat_byte hc, toNat_byte hx] at hnat
  exact Char.toNat_inj.1 hnat

theorem byte_not_mem_encode {x : Char} (hx : x.toNat < 128) (h : x ∉ cs) : byte x ∉ encode cs := by
  have hne : ∀ b ∈ encode cs, (b != byte x) = true := by
    refine forall_mem_encode (fun c hc hlt => ?_) fun b hb => ?_
    · refine bne_iff_ne.2 fun heq => h ?_
      rwa [← byte_injective hlt hx heq]
    · refine bne_iff_ne.2 fun heq => ?_
      rw [heq, toNat_byte hx] at hb
      omega
  exact fun hmem => bne_iff_ne.1 (hne _ hmem) rfl

/-! ### Decoding -/

theorem decode?_encode (cs : List Char) : decode? (encode cs) = some (.ofList cs) := by
  have hvalid : (encode cs).toByteArray.IsValidUTF8 := ⟨cs, rfl⟩
  rw [decode?, String.fromUTF8?, dif_pos hvalid]
  rfl

theorem decode_encode (place : TextPlace) (cs : List Char) : decode place (encode cs) = .ok (.ofList cs) := by
  rw [decode, decode?_encode]

theorem encode_inj {left right : List Char} (h : encode left = encode right) : left = right := by
  have hdecode := congrArg decode? h
  rw [decode?_encode, decode?_encode] at hdecode
  exact String.ofList_injective (Option.some.inj hdecode)

theorem toByteArray_inj {left right : Bytes} (h : left.toByteArray = right.toByteArray) : left = right := by
  have hdata := congrArg (fun array => array.data.toList) h
  simpa only [List.toList_data_toByteArray] using hdata

/-- Bytes have a text just if they are those of the text. -/
theorem decode?_eq_some_iff {bs : Bytes} {text : String} : decode? bs = some text ↔ bs = encode text.toList := by
  constructor
  · intro h
    have hvalid : bs.toByteArray.IsValidUTF8 := by
      refine Classical.byContradiction fun hnot => ?_
      rw [decode?, String.fromUTF8?, dif_neg hnot] at h
      cases h
    obtain ⟨cs, hcs⟩ := hvalid
    have hbs : bs = encode cs := toByteArray_inj hcs
    rw [hbs, decode?_encode] at h
    cases h
    rw [String.toList_ofList, hbs]
  · rintro rfl
    rw [decode?_encode, String.ofList_toList]

theorem decode_eq_ok_iff {place : TextPlace} {bs : Bytes} {text : String} :
    decode place bs = .ok text ↔ decode? bs = some text := by
  rw [decode]
  cases decode? bs <;> simp

theorem toList_loop (array : ByteArray) (i : Nat) (seen : Bytes) :
    ByteArray.toList.loop array i seen = seen.reverse ++ array.data.toList.drop i := by
  induction hsize : array.size - i generalizing i seen with
  | zero =>
      have hle : array.data.toList.length ≤ i := Nat.le_of_sub_eq_zero hsize
      have hlt : ¬i < array.size := Nat.not_lt.2 hle
      rw [ByteArray.toList.loop, if_neg hlt, List.drop_eq_nil_of_le hle, List.append_nil]
  | succ n ih =>
      have hlt : i < array.size := by omega
      have hlength : i < array.data.toList.length := hlt
      have hget : array.get! i = array.data.toList[i] := by
        change array.data[i]! = _
        rw [getElem!_pos array.data i hlt, Array.getElem_toList]
      rw [ByteArray.toList.loop, if_pos hlt, ih _ _ (by omega), List.drop_eq_getElem_cons hlt, hget]
      simp

theorem toList_toUTF8 (cs : List Char) : (String.ofList cs).toUTF8.toList = encode cs := by
  rw [ByteArray.toList, toList_loop, String.toUTF8_eq_toByteArray, String.toByteArray_ofList]
  exact List.toList_data_toByteArray

end CellFormat.Xml
