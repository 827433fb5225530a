import Mathlib.Data.String.Basic
import Mathlib.Tactic.SplitIfs
import ChatFlow.Text.Blank
import ChatFlow.Text.Utf8

/-!
A text as the bytes of its UTF-8 form. A piece may be cut out of a text only between two boundaries of its
characters, while a reader that goes by bytes may stop anywhere. The theorems say what such a reader sees at
an offset where a character starts.
-/
namespace ChatFlow.Text
variable {text : String} {i : Nat} {c : Char} {cs mid rest : List Char} {p q : Char → Bool}

/-- Whether no character of the text reaches across an offset, which is not beyond its end. -/
def IsBoundary (text : String) (i : Nat) : Prop := (⟨i⟩ : String.Pos.Raw).IsValid text

instance (text : String) (i : Nat) : Decidable (IsBoundary text i) :=
  inferInstanceAs (Decidable ((⟨i⟩ : String.Pos.Raw).IsValid text))

theorem IsBoundary.le (h : IsBoundary text i) : i ≤ text.utf8ByteSize :=
  String.Pos.Raw.IsValid.le_utf8ByteSize h

def bytes (text : String) : List UInt8 := text.toByteArray.data.toList

/-- Characters from one offset to another one; there are none where one of the two is no boundary. -/
def slice? (text : String) (i j : Nat) : Option (List Char) :=
  if i ≤ j ∧ IsBoundary text i ∧ IsBoundary text j then
    some (String.Pos.Raw.extract text ⟨i⟩ ⟨j⟩).toList
  else none

def sliceFrom? (text : String) (i : Nat) : Option (List Char) := slice? text i text.utf8ByteSize

/-- Whether the text goes on with a mark at an offset. -/
def startsWith? (mark text : String) (i : Nat) : Option Bool :=
  (sliceFrom? text i).map mark.toList.isPrefixOf

def byteAt? (text : String) (i : Nat) : Option UInt8 := (bytes text)[i]?

/-- Whether there is a byte at an offset that belongs to the class, as the character of that number. -/
def meets (p : Char → Bool) (text : String) (i : Nat) : Bool :=
  (byteAt? text i).any (p ∘ Char.ofUInt8)

/-- Whether the byte at an offset is the given ASCII character. -/
def sees (c : Char) (text : String) (i : Nat) : Bool := meets (· == c) text i

/-- The first offset from `i` on where no byte of the class stands. -/
def skipWhile (p : Char → Bool) (text : String) (i : Nat) : Nat :=
  i + (((bytes text).drop i).takeWhile (p ∘ Char.ofUInt8)).length

theorem le_skipWhile (p : Char → Bool) (text : String) (i : Nat) : i ≤ skipWhile p text i :=
  Nat.le_add_right ..

section Classes

/-- A class of characters with all of those beyond ASCII or with none of them, or another function that has
one value there. Any byte of a character shows its value. -/
def IsAsciiClass {α : Type} (f : Char → α) : Prop := ∃ a, ∀ c : Char, 128 ≤ c.toNat → f c = a

theorem isAsciiClass_of_lt (h : ∀ c, p c = true → c.toNat < 128) : IsAsciiClass p :=
  ⟨false, fun c hc => Bool.eq_false_iff.2 fun hp => Nat.not_lt.2 hc (h c hp)⟩

theorem isAsciiClass_eq {d : Char} (hd : d.toNat < 128) : IsAsciiClass (· == d) :=
  isAsciiClass_of_lt fun _ hc => beq_iff_eq.1 hc ▸ hd

theorem isAsciiClass_isDigit : IsAsciiClass Char.isDigit :=
  isAsciiClass_of_lt fun c hc => by
    simp only [Char.isDigit, Bool.and_eq_true, decide_eq_true_eq] at hc
    exact Nat.lt_of_le_of_lt hc.2 (by decide)

/-- Letters are those of ASCII, capitals and small ones. -/
theorem isAlpha_iff : c.isAlpha = true ↔
    (65 ≤ c.toNat ∧ c.toNat ≤ 90) ∨ (97 ≤ c.toNat ∧ c.toNat ≤ 122) := by
  change (decide ('A'.val ≤ c.val ∧ c.val ≤ 'Z'.val) ||
    decide ('a'.val ≤ c.val) && decide (c.val ≤ 'z'.val)) = true ↔ _
  rw [Bool.or_eq_true, Bool.and_eq_true, decide_eq_true_iff, decide_eq_true_iff, decide_eq_true_iff]
  rfl

theorem isAsciiClass_isAlpha : IsAsciiClass Char.isAlpha :=
  isAsciiClass_of_lt fun c hc => by
    have hletter := isAlpha_iff.1 hc
    omega

theorem IsAsciiClass.not (hp : IsAsciiClass p) : IsAsciiClass (fun c => !p c) :=
  hp.imp' (! ·) fun _ h c hc => congrArg _ (h c hc)

theorem IsAsciiClass.or (hp : IsAsciiClass p) (hq : IsAsciiClass q) :
    IsAsciiClass (fun c => p c || q c) := by
  obtain ⟨a, ha⟩ := hp
  obtain ⟨b, hb⟩ := hq
  exact ⟨a || b, fun c hc => congrArg₂ _ (ha c hc) (hb c hc)⟩

theorem isAsciiClass_isBlank : IsAsciiClass isBlank :=
  isAsciiClass_of_lt fun c hc => by
    simp only [isBlank, Bool.or_eq_true, beq_iff_eq] at hc
    rcases hc with (((rfl | rfl) | rfl) | rfl) | rfl <;> decide

theorem toNat_ofUInt8 (b : UInt8) : (Char.ofUInt8 b).toNat = b.toNat := b.toNat_toUInt32

theorem utf8EncodeChar_of_ascii (hc : c.toNat < 128) :
    String.utf8EncodeChar c = [UInt8.ofNat c.toNat] :=
  if_pos (Nat.le_of_lt_succ hc)

theorem utf8EncodeChar_ne_nil (c : Char) : String.utf8EncodeChar c ≠ [] :=
  List.ne_nil_of_length_pos (String.length_utf8EncodeChar c ▸ c.utf8Size_pos)

theorem le_toNat_of_mem_utf8EncodeChar (hc : 128 ≤ c.toNat) {b : UInt8}
    (hb : b ∈ String.utf8EncodeChar c) : 128 ≤ b.toNat := by
  have hone : ¬ c.val.toNat ≤ 127 := Nat.not_le.2 hc
  simp only [String.utf8EncodeChar, if_neg hone] at hb
  split at hb
  · grind [UInt8.toNat_ofNat']
  · split at hb <;> grind [UInt8.toNat_ofNat']

theorem IsAsciiClass.of_mem {α : Type} {f : Char → α} (hf : IsAsciiClass f) {b : UInt8}
    (hb : b ∈ String.utf8EncodeChar c) : f (Char.ofUInt8 b) = f c := by
  by_cases hc : c.toNat < 128
  · rw [utf8EncodeChar_of_ascii hc, List.mem_singleton] at hb
    have hsame : (Char.ofUInt8 b).toNat = c.toNat := by
      rw [toNat_ofUInt8, hb, UInt8.toNat_ofNat']
      omega
    rw [Char.toNat_inj.1 hsame]
  · obtain ⟨a, ha⟩ := hf
    have hbyte := le_toNat_of_mem_utf8EncodeChar (Nat.not_lt.1 hc) hb
    rw [ha c (Nat.not_lt.1 hc), ha _ (toNat_ofUInt8 b ▸ hbyte)]

theorem leadByte_eq (c : Char) :
    leadByte c = if c.toNat ≤ 0x7f then c.toNat else if c.toNat ≤ 0x7ff then 0xc0 + c.toNat / 0x40
      else if c.toNat ≤ 0xffff then 0xe0 + c.toNat / 0x1000 else 0xf0 + c.toNat / 0x40000 := by
  have hsize : c.utf8Size = if c.toNat ≤ 0x7f then 1 else if c.toNat ≤ 0x7ff then 2
      else if c.toNat ≤ 0xffff then 3 else 4 := rfl
  rw [leadByte, hsize]
  split_ifs <;> rfl

/-- The first byte of a character has the number that is shown for it. -/
theorem head?_utf8EncodeChar (c : Char) :
    ∃ b, (String.utf8EncodeChar c).head? = some b ∧ b.toNat = leadByte c := by
  have hvalid : c.toNat < 0x110000 := by
    have := c.valid
    simp only [UInt32.isValidChar, Nat.isValidChar] at this
    have : c.val.toNat = c.toNat := rfl
    omega
  have hencode : String.utf8EncodeChar c = if c.toNat ≤ 0x7f then [UInt8.ofNat c.toNat]
      else if c.toNat ≤ 0x7ff then
        [UInt8.ofNat (c.toNat / 64 % 0x20 + 0xc0), UInt8.ofNat (c.toNat % 0x40 + 0x80)]
      else if c.toNat ≤ 0xffff then
        [UInt8.ofNat (c.toNat / 4096 % 0x10 + 0xe0), UInt8.ofNat (c.toNat / 64 % 0x40 + 0x80),
          UInt8.ofNat (c.toNat % 0x40 + 0x80)]
      else
        [UInt8.ofNat (c.toNat / 262144 % 0x08 + 0xf0), UInt8.ofNat (c.toNat / 4096 % 0x40 + 0x80),
          UInt8.ofNat (c.toNat / 64 % 0x40 + 0x80), UInt8.ofNat (c.toNat % 0x40 + 0x80)] := rfl
  rw [hencode, leadByte_eq]
  split_ifs <;> exact ⟨_, rfl, by rw [UInt8.toNat_ofNat']; omega⟩

end Classes

/-- Whether `rest` is what follows an offset of the text, which stands between two characters then. -/
def RestAt (text : String) (i : Nat) (rest : List Char) : Prop :=
  ∃ before, text.toList = before ++ rest ∧ i = byteLength before

theorem byteLength_eq_utf8Len (cs : List Char) : byteLength cs = String.utf8Len cs := by
  induction cs with
  | nil => rfl
  | cons c cs ih => rw [byteLength, String.utf8Len_cons, ih, Nat.add_comm]

theorem byteLength_toList (s : String) : byteLength s.toList = s.utf8ByteSize := by
  rw [byteLength_eq_utf8Len, ← String.utf8ByteSize_ofList, String.ofList_toList]

theorem length_flatMap_utf8EncodeChar (cs : List Char) :
    (cs.flatMap String.utf8EncodeChar).length = byteLength cs := by
  induction cs with
  | nil => rfl
  | cons c cs ih =>
    rw [List.flatMap_cons, List.length_append, ih, String.length_utf8EncodeChar, byteLength]

theorem bytes_eq (text : String) : bytes text = text.toList.flatMap String.utf8EncodeChar := by
  rw [bytes, ← String.ofList_toList (s := text), String.toByteArray_ofList, String.toList_ofList,
    List.utf8Encode, List.data_toByteArray]

theorem IsAsciiClass.length_takeWhile (hp : IsAsciiClass p) (cs : List Char) :
    ((cs.flatMap String.utf8EncodeChar).takeWhile (p ∘ Char.ofUInt8)).length =
      byteLength (cs.takeWhile p) := by
  induction cs with
  | nil => rfl
  | cons c cs ih =>
    have hbyte : ∀ b ∈ String.utf8EncodeChar c, (p ∘ Char.ofUInt8) b = p c := fun _ => hp.of_mem
    rw [List.flatMap_cons, List.takeWhile_cons]
    cases hc : p c with
    | true =>
      rw [List.takeWhile_append_of_pos fun b hb => (hbyte b hb).trans hc, List.length_append, ih,
        String.length_utf8EncodeChar]
      rfl
    | false =>
      obtain ⟨b, bs, hbs⟩ := List.exists_cons_of_ne_nil (utf8EncodeChar_ne_nil c)
      have hb := (hbyte b (hbs ▸ List.mem_cons_self)).trans hc
      rw [hbs, List.cons_append, List.takeWhile_cons, hb]
      rfl

namespace RestAt

theorem start (text : String) : RestAt text 0 text.toList := ⟨[], rfl, rfl⟩

theorem drop (h : RestAt text i (mid ++ rest)) : RestAt text (i + byteLength mid) rest := by
  obtain ⟨before, htext, rfl⟩ := h
  exact ⟨before ++ mid, by rw [htext, List.append_assoc], (byteLength_append ..).symm⟩

theorem next (h : RestAt text i (c :: cs)) : RestAt text (i + c.utf8Size) cs := by
  have hsplit : RestAt text i ([c] ++ cs) := h
  exact hsplit.drop

/-- After two characters of one byte each. -/
theorem next₂ {d : Char} (h : RestAt text i (c :: d :: cs)) (hc : c.utf8Size = 1)
    (hd : d.utf8Size = 1) : RestAt text (i + 2) cs := by
  simpa [hc, hd, Nat.add_assoc] using h.next.next

theorem size (h : RestAt text i rest) : i + byteLength rest = text.utf8ByteSize := by
  obtain ⟨before, htext, rfl⟩ := h
  rw [← byteLength_append, ← htext, byteLength_toList]

theorem unique {j : Nat} (h : RestAt text i rest) (h' : RestAt text j rest) : i = j :=
  Nat.add_right_cancel (h.size.trans h'.size.symm)

theorem isBoundary (h : RestAt text i rest) : IsBoundary text i := by
  obtain ⟨before, htext, rfl⟩ := h
  refine String.Pos.Raw.isValid_iff_exists_append.2 ⟨.ofList before, .ofList rest, ?_, ?_⟩
  · rw [← String.ofList_append, ← htext, String.ofList_toList]
  · rw [String.Pos.Raw.ext_iff]
    simp [byteLength_eq_utf8Len]

/-- A piece that starts where a character starts and has no part of a character can be cut out. -/
theorem slice (h : RestAt text i (mid ++ rest)) :
    slice? text i (i + byteLength mid) = some mid := by
  rw [slice?, if_pos ⟨Nat.le_add_right .., h.isBoundary, h.drop.isBoundary⟩]
  obtain ⟨before, htext, rfl⟩ := h
  rw [← String.ofList_toList (s := text), htext, ← List.append_assoc, byteLength_eq_utf8Len,
    byteLength_eq_utf8Len, String.extract_of_valid, String.toList_ofList]

theorem sliceFrom (h : RestAt text i rest) : sliceFrom? text i = some rest := by
  rw [sliceFrom?, ← h.size]
  have hall : RestAt text i (rest ++ []) := by rwa [List.append_nil]
  exact hall.slice

theorem startsWith (h : RestAt text i rest) (mark : String) :
    startsWith? mark text i = some (mark.toList.isPrefixOf rest) := by
  rw [startsWith?, h.sliceFrom, Option.map_some]

theorem bytes_drop (h : RestAt text i rest) :
    (bytes text).drop i = rest.flatMap String.utf8EncodeChar := by
  obtain ⟨before, htext, rfl⟩ := h
  rw [bytes_eq, htext, List.flatMap_append, ← length_flatMap_utf8EncodeChar, List.drop_left]

/-- The byte at an offset where a character starts is the first one of the character. -/
theorem byteAt (h : RestAt text i rest) :
    byteAt? text i = rest.head?.bind fun c => (String.utf8EncodeChar c).head? := by
  have hbyte : (bytes text)[i]? = (rest.flatMap String.utf8EncodeChar)[0]? := by
    rw [← h.bytes_drop, List.getElem?_drop, Nat.add_zero]
  rw [byteAt?, hbyte]
  cases rest with
  | nil => rfl
  | cons c cs =>
    have hpos := List.length_pos_iff.2 (utf8EncodeChar_ne_nil c)
    rw [List.flatMap_cons, List.getElem?_append_left hpos, List.head?_cons, Option.bind_some,
      List.head?_eq_getElem?]

theorem meets (h : RestAt text i rest) (hp : IsAsciiClass p) : meets p text i = rest.head?.any p := by
  rw [Text.meets, h.byteAt]
  cases rest with
  | nil => rfl
  | cons c cs =>
    obtain ⟨b, bs, hbs⟩ := List.exists_cons_of_ne_nil (utf8EncodeChar_ne_nil c)
    rw [List.head?_cons, Option.bind_some, hbs, List.head?_cons]
    exact hp.of_mem (hbs ▸ List.mem_cons_self)

theorem sees (h : RestAt text i rest) {d : Char} (hd : d.toNat < 128) :
    sees d text i = rest.head?.any (· == d) :=
  h.meets (isAsciiClass_eq hd)

theorem sees_iff (h : RestAt text i rest) {d : Char} (hd : d.toNat < 128) :
    Text.sees d text i = true ↔ ∃ cs, rest = d :: cs := by
  rw [h.sees hd]
  cases rest with
  | nil => simp
  | cons c cs =>
    rw [List.head?_cons, Option.any_some, beq_iff_eq]
    exact ⟨fun hc => ⟨cs, hc ▸ rfl⟩, fun ⟨_, hcs⟩ => (List.cons.inj hcs).1⟩

/-- After an ASCII character the next one stands at the next byte. -/
theorem sees_meets (h : RestAt text i (c :: cs)) {d : Char} (hd : d.toNat < 128)
    (hp : IsAsciiClass p) :
    (Text.sees d text i && Text.meets p text (i + 1)) = (c == d && cs.head?.any p) := by
  have hsees : Text.sees d text i = (c == d) := h.sees hd
  rw [hsees]
  by_cases hc : c = d
  · subst hc
    have hsize : c.utf8Size = 1 := by
      rw [← String.length_utf8EncodeChar, utf8EncodeChar_of_ascii hd, List.length_singleton]
    have hnext : RestAt text (i + 1) cs := hsize ▸ h.next
    rw [hnext.meets hp]
  · rw [beq_eq_false_iff_ne.2 hc, Bool.false_and, Bool.false_and]

/-- A run of bytes of a class is a run of characters of that class. -/
theorem skipWhile (h : RestAt text i rest) (hp : IsAsciiClass p) :
    skipWhile p text i = i + byteLength (rest.takeWhile p) := by
  rw [Text.skipWhile, h.bytes_drop, hp.length_takeWhile]

/-- The run of characters of a class, cut out by its bytes, and what follows it. -/
theorem slice_skipWhile (h : RestAt text i rest) (hp : IsAsciiClass p) :
    slice? text i (Text.skipWhile p text i) = some (rest.takeWhile p) := by
  rw [h.skipWhile hp]
  have hsplit : RestAt text i (rest.takeWhile p ++ rest.dropWhile p) := by
    rwa [List.takeWhile_append_dropWhile]
  exact hsplit.slice

theorem at_skipWhile (h : RestAt text i rest) (hp : IsAsciiClass p) :
    RestAt text (Text.skipWhile p text i) (rest.dropWhile p) := by
  rw [h.skipWhile hp]
  exact drop (by rwa [List.takeWhile_append_dropWhile])

/-- A character and the run of characters of a class after it, cut out of the text, and what follows
them. -/
theorem slice_run (h : RestAt text i (c :: cs)) (p : Char → Bool) :
    slice? text i (i + byteLength (c :: cs.takeWhile p)) = some (c :: cs.takeWhile p) ∧
      RestAt text (i + byteLength (c :: cs.takeWhile p)) (cs.dropWhile p) := by
  have hsplit : RestAt text i ((c :: cs.takeWhile p) ++ cs.dropWhile p) := by
    rwa [List.cons_append, List.takeWhile_append_dropWhile]
  exact ⟨hsplit.slice, hsplit.drop⟩

/-- Of two offsets between characters, the one with less text after it is the greater one. -/
theorem lt {j : Nat} {rest' : List Char} (h : RestAt text i rest) (h' : RestAt text j rest')
    (hlength : rest'.length < rest.length) : i < j := by
  obtain ⟨before, htext, rfl⟩ := h
  obtain ⟨before', htext', rfl⟩ := h'
  have hsame : before ++ rest = before' ++ rest' := htext.symm.trans htext'
  have hlonger : before.length < before'.length := by
    have := congrArg List.length hsame
    simp only [List.length_append] at this
    omega
  obtain ⟨mid, rfl⟩ : before <+: before' :=
    List.prefix_of_prefix_length_le (List.prefix_append before rest)
      (hsame ▸ List.prefix_append before' rest') hlonger.le
  obtain ⟨c, mid, rfl⟩ := List.exists_cons_of_ne_nil (l := mid) (by rintro rfl; simp at hlonger)
  have := c.utf8Size_pos
  simp only [byteLength_append, byteLength]
  omega

end RestAt

theorem exists_restAt (h : IsBoundary text i) : ∃ rest, RestAt text i rest := by
  obtain ⟨s, t, rfl, hi⟩ := String.Pos.Raw.isValid_iff_exists_append.1 h
  refine ⟨t.toList, s.toList, String.toList_append, ?_⟩
  rw [byteLength_toList]
  exact congrArg String.Pos.Raw.byteIdx hi

theorem lt_of_sliceFrom? (h : sliceFrom? text i = some (c :: cs)) : i < text.utf8ByteSize := by
  have hboundary : IsBoundary text i := by
    rw [sliceFrom?, slice?] at h
    split at h
    · next hi => exact hi.2.1
    · cases h
  obtain ⟨rest, hrest⟩ := exists_restAt hboundary
  rw [hrest.sliceFrom] at h
  cases h
  have := hrest.size
  have := c.utf8Size_pos
  simp only [byteLength] at *
  omega

theorem lt_of_byteAt? {b : UInt8} (h : byteAt? text i = some b) : i < text.utf8ByteSize := by
  have hlt := (List.getElem?_eq_some_iff.1 h).1
  rwa [bytes_eq, length_flatMap_utf8EncodeChar, byteLength_toList] at hlt

theorem lt_of_meets (h : meets p text i = true) : i < text.utf8ByteSize := by
  obtain ⟨b, hb, -⟩ := (Option.any_eq_true ..).1 h
  exact lt_of_byteAt? hb

end ChatFlow.Text
