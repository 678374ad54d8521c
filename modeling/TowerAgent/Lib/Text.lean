import Mathlib.Data.List.DropRight

/-! Text functions of the Rust standard library. -/
namespace TowerAgent.Lib.Text

/-- The Unicode property `White_Space`. -/
def isWhitespace (c : Char) : Bool :=
  let n := c.val
  (9 ≤ n && n ≤ 13) || n == 0x20 || n == 0x85 || n == 0xA0 || n == 0x1680 ||
    (0x2000 ≤ n && n ≤ 0x200A) || n == 0x2028 || n == 0x2029 || n == 0x202F ||
    n == 0x205F || n == 0x3000

/-- `str::trim`: drop leading and trailing whitespace. -/
def trim (s : String) : String :=
  String.ofList ((s.toList.dropWhile isWhitespace).rdropWhile isWhitespace)

/-- A text that trims to nothing. -/
def isBlank (s : String) : Bool := (trim s).isEmpty

/-- A text with a visible character is not blank. -/
lemma isBlank_of_mem {s : String} {c : Char} (h : c ∈ s.toList) (hc : isWhitespace c = false) :
    isBlank s = false := by
  cases hb : isBlank s with
  | false => rfl
  | true =>
    have hnil : (s.toList.dropWhile isWhitespace).rdropWhile isWhitespace = [] := by
      simpa [isBlank, trim] using hb
    have hdrop := List.rdropWhile_eq_nil_iff.mp hnil
    rw [←List.takeWhile_append_dropWhile (p := isWhitespace) (l := s.toList)] at h
    rcases List.mem_append.mp h with h | h
    · rw [List.mem_takeWhile_imp h] at hc
      cases hc
    · rw [hdrop c h] at hc
      cases hc

/-- Split at line feeds; a last line without text is no line, and a carriage return before a line feed
goes with it. -/
def linesFrom (line : List Char) : List Char → List String
  | [] => if line.isEmpty then [] else [String.ofList line.reverse]
  | '\n'::text =>
    String.ofList (match line with | '\r'::line => line.reverse | line => line.reverse)::
      linesFrom [] text
  | c::text => linesFrom (c::line) text

/-- `str::lines`. -/
def lines (text : String) : List String := linesFrom [] text.toList

end TowerAgent.Lib.Text
