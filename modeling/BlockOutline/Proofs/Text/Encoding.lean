import BlockOutline.Proofs.Text.Pieces
import BlockOutline.Text.Encoding

/-! # Texts and bytes

A text is read back from its bytes. Bytes are a text exactly if they are the bytes of what they are shown
as, and bytes with a separator of ASCII between them are shown with the separator between them. -/

namespace BlockOutline

namespace Text

theorem encode_append (s t : String) : encode (s ++ t) = encode s ++ encode t := by
  simp [encode]

theorem utf8EncodeChar_ne_nil (c : Char) : String.utf8EncodeChar c ≠ [] := by
  intro h
  have hlength := String.length_utf8EncodeChar c
  rw [h, List.length_nil] at hlength
  exact absurd hlength c.utf8Size_pos.ne

end Text

namespace Bytes

open Text

/-! ## One character -/

theorem firstChar?_eq_some_iff {bytes : Bytes} {c : Char} :
    firstChar? bytes = some c ↔ String.utf8EncodeChar c <+: bytes := by
  constructor
  · intro h
    obtain ⟨more, hmore⟩ := ByteArray.exists_of_utf8DecodeChar?_eq_some h
    have hlist := congrArg (·.data.toList) hmore
    simp only [ByteArray.data_append, List.data_toByteArray, Array.toList_append] at hlist
    have hprefix : String.utf8EncodeChar c <+: bytes.take 4 := ⟨_, hlist.symm⟩
    exact hprefix.trans (List.take_prefix 4 bytes)
  · intro h
    obtain ⟨rest, rfl⟩ := h
    have hlength : (String.utf8EncodeChar c).length ≤ 4 :=
      (String.length_utf8EncodeChar c).trans_le c.utf8Size_le_four
    rw [firstChar?, List.take_append, List.take_of_length_le hlength, List.toByteArray_append]
    exact ByteArray.utf8DecodeChar?_utf8EncodeChar_append

theorem isUTF8FirstByte_of_ascii {byte : UInt8} (h : byte < 0x80) : byte.IsUTF8FirstByte := by
  have hall : ∀ n < 128, UInt8.ofNat n &&& 0x80 = 0 := by decide
  have hbyte := hall byte.toNat h
  rw [UInt8.ofNat_toNat] at hbyte
  exact .inl hbyte

/-- Behind the first byte of a character there is no byte of ASCII. -/
theorem not_ascii_of_mem_tail {c : Char} {byte : UInt8}
    (h : byte ∈ (String.utf8EncodeChar c).tail) : ¬byte < 0x80 := by
  intro hascii
  obtain ⟨i, hi, hbyte⟩ := List.getElem_of_mem h
  have hfirst := isUTF8FirstByte_of_ascii hascii
  rw [← hbyte, List.getElem_tail, UInt8.isUTF8FirstByte_getElem_utf8EncodeChar] at hfirst
  exact Nat.succ_ne_zero i hfirst

theorem not_le_of_ascii {low byte : UInt8} (hlow : 0x80 ≤ low) (h : byte < 0x80) : ¬low ≤ byte := by
  rw [UInt8.not_le]
  exact UInt8.lt_of_lt_of_le h hlow

theorem canFollow_eq_false (first : UInt8) {second : UInt8} (h : second < 0x80) :
    canFollow first second = false := by
  have hlow (low : UInt8) (hlow : 0x80 ≤ low) : ¬low ≤ second := not_le_of_ascii hlow h
  simp [canFollow, hlow 0x80 (by decide), hlow 0x90 (by decide), hlow 0xA0 (by decide)]

/-! ## Reading on -/

theorem decodeFrom_eq (skipped : ℕ) (bytes : Bytes) :
    decodeFrom skipped bytes = decode (bytes.drop skipped) := by
  induction skipped generalizing bytes with
  | zero => rfl
  | succ n ih =>
      cases bytes with
      | nil => rfl
      | cons byte rest => exact ih rest

theorem decode_encodeChar_append (c : Char) (rest : Bytes) :
    decode (String.utf8EncodeChar c ++ rest) = some c :: decode rest := by
  obtain ⟨byte, more, hc⟩ := List.exists_cons_of_ne_nil (utf8EncodeChar_ne_nil c)
  have hfirst : firstChar? (byte :: (more ++ rest)) = some c := by
    rw [firstChar?_eq_some_iff, hc]
    exact List.prefix_append (byte :: more) rest
  have hmore : more.length = c.utf8Size - 1 := by
    rw [← String.length_utf8EncodeChar, hc, List.length_cons, Nat.add_sub_cancel]
  rw [hc, List.cons_append, decode, decodeFrom, hfirst]
  dsimp only
  rw [decodeFrom_eq, ← hmore, List.drop_left]

theorem strayLength_le {bytes : Bytes} (hne : bytes ≠ []) :
    1 ≤ strayLength bytes ∧ strayLength bytes ≤ bytes.length := by
  obtain ⟨first, rest, rfl⟩ := List.exists_cons_of_ne_nil hne
  match rest with
  | [] => simp [strayLength]
  | [second] =>
      rw [strayLength]
      split <;> simp
  | second :: third :: rest =>
      rw [strayLength]
      split
      · split <;> simp
      · simp

theorem decode_stray {bytes : Bytes} (hne : bytes ≠ []) (h : firstChar? bytes = none) :
    decode bytes = none :: decode (bytes.drop (strayLength bytes)) := by
  obtain ⟨n, hn⟩ := Nat.exists_eq_add_of_le' (strayLength_le hne).1
  obtain ⟨byte, rest, rfl⟩ := List.exists_cons_of_ne_nil hne
  rw [decode, decodeFrom, h, hn]
  exact congrArg (none :: ·) (decodeFrom_eq n rest)

/-- What holds of bytes that begin with a character or with a stray part if it holds of the rest, holds
of all bytes. -/
theorem decode_induction {motive : Bytes → Prop} (nil : motive [])
    (char : ∀ c rest, motive rest → motive (String.utf8EncodeChar c ++ rest))
    (stray : ∀ bytes, bytes ≠ [] → firstChar? bytes = none →
      motive (bytes.drop (strayLength bytes)) → motive bytes)
    (bytes : Bytes) : motive bytes := by
  induction h : bytes.length using Nat.strong_induction_on generalizing bytes with
  | _ n ih =>
      subst h
      by_cases hne : bytes = []
      · exact hne ▸ nil
      · cases hfirst : firstChar? bytes with
        | some c =>
            obtain ⟨rest, rfl⟩ := firstChar?_eq_some_iff.mp hfirst
            refine char c rest (ih rest.length ?_ rest rfl)
            rw [List.length_append, String.length_utf8EncodeChar]
            exact Nat.lt_add_of_pos_left c.utf8Size_pos
        | none =>
            have hlength := strayLength_le hne
            refine stray bytes hne hfirst (ih _ ?_ _ rfl)
            rw [List.length_drop]
            omega

theorem decode_encode (text : String) : decode (encode text) = text.toList.map some := by
  rw [encode]
  induction text.toList with
  | nil => rfl
  | cons c cs ih => rw [List.flatMap_cons, decode_encodeChar_append, ih, List.map_cons]

/-- What is read as characters throughout can be written again. -/
theorem encode_lossy_of_all {bytes : Bytes} (h : (decode bytes).all Option.isSome = true) :
    encode (lossy bytes) = bytes := by
  induction bytes using decode_induction with
  | nil => rfl
  | char c rest ih =>
      rw [decode_encodeChar_append, List.all_cons, Bool.and_eq_true] at h
      have hrest := ih h.2
      rw [lossy, encode, String.toList_ofList] at hrest ⊢
      rw [decode_encodeChar_append, List.map_cons, List.flatMap_cons, hrest, Option.getD_some]
  | stray bytes hne hfirst _ =>
      rw [decode_stray hne hfirst] at h
      simp at h

@[simp] theorem lossy_encode (text : String) : lossy (encode text) = text := by
  rw [lossy, decode_encode, List.map_map]
  simp [Function.comp_def]

theorem encode_injective : Function.Injective encode :=
  Function.LeftInverse.injective lossy_encode

theorem map_encode_map_lossy {names : List Bytes} (h : ∀ name ∈ names, encode name.lossy = name) :
    (names.map lossy).map encode = names := by
  rw [List.map_map]
  exact (List.map_congr_left h).trans (List.map_id _)

theorem text?_eq_some_iff {bytes : Bytes} {text : String} :
    text? bytes = some text ↔ encode text = bytes := by
  unfold text?
  constructor
  · intro h
    split at h
    · next hall =>
      cases h
      exact encode_lossy_of_all hall
    · cases h
  · intro h
    subst h
    rw [if_pos (by simp [decode_encode]), lossy_encode]

@[simp] theorem text?_encode (text : String) : text? (encode text) = some text :=
  text?_eq_some_iff.mpr rfl

/-! ## What is shown -/

theorem subset_of_mem_decode {bytes : Bytes} {c : Char} (h : some c ∈ decode bytes) :
    String.utf8EncodeChar c ⊆ bytes := by
  induction bytes using decode_induction with
  | nil => cases h
  | char d rest ih =>
      rw [decode_encodeChar_append] at h
      rcases List.mem_cons.mp h with h | h
      · cases h
        exact List.subset_append_left _ _
      · exact List.Subset.trans (ih h) (List.subset_append_right _ _)
  | stray bytes hne hfirst ih =>
      rw [decode_stray hne hfirst] at h
      have hrest := ih (List.mem_of_ne_of_mem (by simp) h)
      exact List.Subset.trans hrest (List.drop_subset _ _)

/-- Only the mark is shown where it does not stand. -/
theorem mem_decode_of_mem_lossy {bytes : Bytes} {c : Char} (h : c ∈ bytes.lossy.toList)
    (hc : c ≠ '\uFFFD') : some c ∈ decode bytes := by
  rw [lossy, String.toList_ofList] at h
  obtain ⟨d, hd, hshown⟩ := List.mem_map.mp h
  cases d with
  | none => exact absurd hshown.symm hc
  | some d => exact hshown ▸ hd

theorem lossy_eq_empty_iff {bytes : Bytes} : lossy bytes = "" ↔ bytes = [] := by
  constructor
  · intro h
    by_contra hne
    have hdecode : decode bytes = [] := by simpa [lossy] using h
    cases hfirst : firstChar? bytes with
    | some c =>
        obtain ⟨rest, rfl⟩ := firstChar?_eq_some_iff.mp hfirst
        rw [decode_encodeChar_append] at hdecode
        cases hdecode
    | none =>
        rw [decode_stray hne hfirst] at hdecode
        cases hdecode
  · rintro rfl
    rfl

section Separator

variable {separator : UInt8} {c : Char} (hascii : separator < 0x80)
  (hc : String.utf8EncodeChar c = [separator])

include hascii

theorem strayLength_append_cons {bytes : Bytes} (hne : bytes ≠ []) (rest : Bytes) :
    strayLength (bytes ++ separator :: rest) = strayLength bytes := by
  obtain ⟨first, more, rfl⟩ := List.exists_cons_of_ne_nil hne
  match more with
  | [] => simp [strayLength, canFollow_eq_false first hascii]
  | [second] =>
      have hlow : ¬0x80 ≤ separator := not_le_of_ascii (by decide) hascii
      simp [strayLength, hlow]
  | second :: third :: more => rfl

theorem firstChar?_append_cons {bytes : Bytes} (hne : bytes ≠ []) (rest : Bytes) :
    firstChar? (bytes ++ separator :: rest) = firstChar? bytes := by
  refine Option.ext fun c => ?_
  rw [firstChar?_eq_some_iff, firstChar?_eq_some_iff]
  refine ⟨?_, fun h => h.trans (List.prefix_append _ _)⟩
  intro h
  rcases List.prefix_or_prefix_of_prefix h (List.prefix_append bytes _) with hshort | ⟨more, hmore⟩
  · exact hshort
  · -- Otherwise the separator is a byte of the character, and not the first one.
    cases more with
    | nil => exact ⟨[], by rw [← hmore]; simp⟩
    | cons byte more =>
        rw [← hmore, List.prefix_append_right_inj, List.cons_prefix_cons] at h
        obtain ⟨rfl, -⟩ := h
        refine absurd hascii (not_ascii_of_mem_tail (c := c) ?_)
        rw [← hmore, List.tail_append_of_ne_nil hne]
        exact List.mem_append_right _ List.mem_cons_self

include hc

/-- No character reaches across a separator. -/
theorem decode_append_cons (bytes rest : Bytes) :
    decode (bytes ++ separator :: rest) = decode bytes ++ some c :: decode rest := by
  induction bytes using decode_induction with
  | nil =>
      have h := decode_encodeChar_append c rest
      rwa [hc] at h
  | char d more ih =>
      rw [List.append_assoc, decode_encodeChar_append, decode_encodeChar_append, ih]
      rfl
  | stray bytes hne hfirst ih =>
      have hlength := (strayLength_le hne).2
      have hfirst' := (firstChar?_append_cons hascii hne rest).trans hfirst
      rw [decode_stray hne hfirst, decode_stray (by simp) hfirst', strayLength_append_cons hascii hne,
        List.drop_append_of_le_length hlength, ih]
      rfl

theorem lossy_append_cons (bytes rest : Bytes) :
    lossy (bytes ++ separator :: rest) = lossy bytes ++ String.singleton c ++ lossy rest := by
  rw [← String.toList_inj]
  simp [lossy, decode_append_cons hascii hc]

end Separator

end Bytes

end BlockOutline
