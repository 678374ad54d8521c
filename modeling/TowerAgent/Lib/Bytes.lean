import Mathlib.Data.List.DropRight
import Mathlib.Data.String.Basic

/-! Text files as bytes: the encoding of their text, and what a reader takes for their lines. -/
namespace TowerAgent.Lib.Bytes

def newline : UInt8 := 10

def carriageReturn : UInt8 := 13

/-- The bytes of a text. -/
def ofText (s : String) : List UInt8 := s.toList.flatMap String.utf8EncodeChar

/-- The text of some bytes, if they encode one. -/
def toText (bytes : List UInt8) : Option String := String.fromUTF8? bytes.toByteArray

/-- `BufRead::lines`, as bytes: a last line without its newline is one, unless it is empty, and a
carriage return before a newline goes with it. -/
def lines : List UInt8 → List (List UInt8)
  | [] => []
  | b::rest =>
    if b = newline then []::lines rest
    else match lines rest with
      | [] => [[b]]
      | line::more =>
        if b = carriageReturn ∧ rest.head? = some newline then line::more else (b::line)::more

/-- What follows the last newline. -/
def lastLine (bytes : List UInt8) : List UInt8 := bytes.rtakeWhile (· != newline)

/-- Bytes in which no line ends, nor begins to. -/
def Flat (bytes : List UInt8) : Prop := newline ∉ bytes ∧ carriageReturn ∉ bytes

theorem toText_ofText (s : String) : toText (ofText s) = some s := by
  have hb : (ofText s).toByteArray = s.toByteArray := String.utf8Encode_toList
  unfold toText String.fromUTF8?
  rw [hb,dif_pos s.isValidUTF8]
  rfl

theorem ofText_of_toText {bytes : List UInt8} {s : String} (h : toText bytes = some s) :
    ofText s = bytes := by
  unfold toText String.fromUTF8? at h
  split at h
  · obtain rfl := Option.some.inj h
    refine List.toByteArray_inj.mp ?_
    exact String.utf8Encode_toList
  · cases h

lemma toList_loop (bs : ByteArray) (i : ℕ) (r : List UInt8) :
    ByteArray.toList.loop bs i r = r.reverse ++ bs.data.toList.drop i := by
  induction h : bs.size - i generalizing i r with
  | zero =>
    have hi : ¬ i < bs.size := by omega
    have hd : bs.data.toList.drop i = [] := List.drop_eq_nil_of_le (by
      rw [Array.length_toList]
      exact Nat.not_lt.mp hi)
    rw [ByteArray.toList.loop,if_neg hi,hd,List.append_nil]
  | succ k ih =>
    have hi : i < bs.size := by omega
    have hlength : i < bs.data.toList.length := by simpa using hi
    have hget : bs.get! i = bs.data.toList[i] := by
      simp [ByteArray.get!, getElem!_pos, hi]
    rw [ByteArray.toList.loop,if_pos hi,ih (i+1) _ (by omega),List.reverse_cons,List.append_assoc,
      List.singleton_append,hget,List.getElem_cons_drop]

/-- The bytes of a text tell it from any other. -/
theorem toUTF8_injective {s t : String} (h : s.toUTF8.toList = t.toUTF8.toList) : s = t := by
  simp only [ByteArray.toList, toList_loop, List.reverse_nil, List.nil_append, List.drop_zero] at h
  exact String.toByteArray_inj.mp (ByteArray.ext (Array.toList_inj.mp h))

section Lines
variable {bytes rest : List UInt8}

lemma Flat.of_cons {b : UInt8} (h : Flat (b::bytes)) :
    b ≠ newline ∧ b ≠ carriageReturn ∧ Flat bytes := by
  obtain ⟨hn,hc⟩ := h
  simp only [List.mem_cons, not_or] at hn hc
  exact ⟨Ne.symm hn.1,Ne.symm hc.1,hn.2,hc.2⟩

/-- A terminated line is read by itself. -/
theorem lines_line (h : Flat bytes) : lines (bytes ++ newline::rest) = bytes::lines rest := by
  induction bytes with
  | nil => simp [lines]
  | cons b bytes ih =>
    obtain ⟨hn,hc,hf⟩ := h.of_cons
    simp [lines, hn, hc, ih hf]

/-- An unterminated one is read as far as it goes. -/
theorem lines_unterminated (h : newline ∉ bytes) (hne : bytes ≠ []) : lines bytes = [bytes] := by
  induction bytes with
  | nil => exact absurd rfl hne
  | cons b bytes ih =>
    simp only [List.mem_cons, not_or] at h
    obtain ⟨hb,hn⟩ := h
    cases bytes with
    | nil => simp [lines, Ne.symm hb]
    | cons c bytes =>
      have hc : c ≠ newline := fun he => hn (he ▸ List.mem_cons_self)
      rw [lines,if_neg (Ne.symm hb),ih hn (List.cons_ne_nil _ _)]
      simp [hc]

lemma lastLine_append (h : newline ∉ bytes) : lastLine (rest ++ newline::bytes) = bytes := by
  have hall : ∀ b ∈ bytes.reverse, (b != newline) = true := fun b hb => by
    rw [bne_iff_ne]
    rintro rfl
    exact h (List.mem_reverse.mp hb)
  simp only [lastLine, List.rtakeWhile, List.reverse_append, List.reverse_cons, List.append_assoc,
    List.takeWhile_append_of_pos hall, List.singleton_append]
  simp

lemma lastLine_self (h : newline ∉ bytes) : lastLine bytes = bytes := by
  have hall : ∀ b ∈ bytes, (b != newline) = true := fun b hb => by
    rw [bne_iff_ne]
    rintro rfl
    exact h hb
  exact List.rtakeWhile_eq_self_iff.mpr (fun b hb => hall b hb)

end Lines

section Encoding
variable {c : Char} {b : UInt8} {s : String}

/-- A byte of the encoding below 128 is the character itself. -/
lemma mem_encodeChar (h : b ∈ String.utf8EncodeChar c) (hb : b.toNat < 128) :
    c.toNat = b.toNat := by
  have hc : c.toNat = c.val.toNat := rfl
  unfold String.utf8EncodeChar at h
  dsimp only at h
  split at h
  · obtain rfl := List.mem_singleton.mp h
    rw [UInt8.toNat_ofNat']
    omega
  split at h
  · simp only [List.mem_cons, List.not_mem_nil, or_false] at h
    rcases h with rfl | rfl <;> rw [UInt8.toNat_ofNat'] at hb <;> omega
  split at h
  · simp only [List.mem_cons, List.not_mem_nil, or_false] at h
    rcases h with rfl | rfl | rfl <;> rw [UInt8.toNat_ofNat'] at hb <;> omega
  · simp only [List.mem_cons, List.not_mem_nil, or_false] at h
    rcases h with rfl | rfl | rfl | rfl <;> rw [UInt8.toNat_ofNat'] at hb <;> omega

lemma mem_ofText (h : b ∈ ofText s) (hb : b.toNat < 128) : Char.ofNat b.toNat ∈ s.toList := by
  obtain ⟨c,hm,hc⟩ := List.mem_flatMap.mp h
  rw [←mem_encodeChar hc hb,Char.ofNat_toNat]
  exact hm

/-- A text without line ends is one line. -/
theorem flat_ofText (hn : '\n' ∉ s.toList) (hc : '\r' ∉ s.toList) : Flat (ofText s) :=
  ⟨fun h => hn (mem_ofText h (by decide)),fun h => hc (mem_ofText h (by decide))⟩

end Encoding

end TowerAgent.Lib.Bytes
