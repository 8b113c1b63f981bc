import YakUnshorn.Lib.LineReader
import Mathlib.Data.List.DropRight

/-!
Formatted input as `sscanf` of the C library does it, for formats of plain characters, white
space and `%s`. A `Char` of the input stands for one of its bytes.
-/

namespace Scanf

def isSpace (char : Char) : Bool := char = ' ' || 9 ≤ char.toNat && char.toNat ≤ 13

inductive Directive
  | plain (char : Char)
  | space
  | word
  deriving Repr, DecidableEq

/-- The directives of a format, with `%s` as the only conversion. -/
def directives : List Char → List Directive
  | [] => []
  | '%' :: 's' :: rest => .word :: directives rest
  | char :: rest => (if isSpace char then .space else .plain char) :: directives rest

def nextWord (input : List Char) : List Char :=
  (input.dropWhile isSpace).takeWhile fun char => !isSpace char

/-- The words that the conversions store, up to the first directive that fails. White space in the
format also matches none in the input. -/
def scan : List Directive → List Char → List (List Char)
  | [], _ => []
  | .plain _ :: _, [] => []
  | .plain char :: format, first :: rest => if first = char then scan format rest else []
  | .space :: format, input => scan format (input.dropWhile isSpace)
  | .word :: format, input =>
      if nextWord input = [] then []
      else
        nextWord input ::
          scan format ((input.dropWhile isSpace).dropWhile fun char => !isSpace char)

/-- The string in a buffer, which ends at the first null character. -/
def cString (buffer : List Char) : List Char := buffer.takeWhile fun char => char ≠ Char.ofNat 0

def sscanf (buffer format : List Char) : List (List Char) :=
  scan (directives format) (cString buffer)

/-- White space, and behind it a word that is followed by white space or nothing. -/
def Word (input gap word : List Char) : Prop :=
  ∃ rest, input = gap ++ (word ++ rest) ∧ (∀ char ∈ gap, isSpace char = true) ∧ word ≠ [] ∧
    (∀ char ∈ word, isSpace char = false) ∧ ∀ char, rest.head? = some char → isSpace char = true

theorem dropWhile_of_all {gap : List Char} (all : ∀ char ∈ gap, isSpace char = true)
    (rest : List Char) : (gap ++ rest).dropWhile isSpace = rest.dropWhile isSpace :=
  List.dropWhile_append_of_pos all

theorem takeWhile_word {word rest : List Char} (plain : ∀ char ∈ word, isSpace char = false)
    (ends : ∀ char, rest.head? = some char → isSpace char = true) :
    (word ++ rest).takeWhile (fun char => !isSpace char) = word := by
  rw [List.takeWhile_append_of_pos (by simpa using plain)]
  cases rest with
  | nil => simp
  | cons char later => simp [ends char rfl]

theorem Word.nextWord_eq {input gap word : List Char} (behind : Word input gap word) :
    nextWord input = word := by
  obtain ⟨rest, rfl, gaps, full, plain, ends⟩ := behind
  rw [nextWord, dropWhile_of_all gaps]
  obtain ⟨first, others, rfl⟩ := List.exists_cons_of_ne_nil full
  have solid : isSpace first = false := plain first List.mem_cons_self
  rw [List.cons_append, List.dropWhile_cons_of_neg (by simp [solid]), ← List.cons_append]
  exact takeWhile_word plain ends

theorem nextWord_word {input : List Char} (some : nextWord input ≠ []) :
    Word input (input.takeWhile isSpace) (nextWord input) := by
  refine ⟨(input.dropWhile isSpace).dropWhile fun char => !isSpace char, ?_, ?_, some, ?_, ?_⟩
  · rw [nextWord, List.takeWhile_append_dropWhile, List.takeWhile_append_dropWhile]
  · exact fun char member => List.mem_takeWhile_imp member
  · intro char member
    simpa using List.mem_takeWhile_imp member
  · intro char first
    have stopped := List.head?_dropWhile_not (fun char => !isSpace char) (input.dropWhile isSpace)
    rw [first] at stopped
    simpa using stopped

theorem scan_plain (key : List Char) (format : List Directive) (input : List Char) :
    scan (key.map .plain ++ format) input =
      if key.isPrefixOf input then scan format (input.drop key.length) else [] := by
  induction key generalizing input with
  | nil => simp
  | cons char rest ih =>
      cases input with
      | nil => rfl
      | cons first later =>
          by_cases same : first = char
          · subst same
            simp [scan, ih]
          · have different : ¬char = first := fun equal => same equal.symm
            simp [scan, same, different]

theorem scan_space_word (input : List Char) :
    scan [.space, .word] input = if nextWord input = [] then [] else [nextWord input] := by
  have same : nextWord (input.dropWhile isSpace) = nextWord input := by
    rw [nextWord, nextWord, List.dropWhile_idempotent]
  rw [scan, scan, same, scan]

/-- A key with white space and a conversion behind it stores a word exactly when the key is in
front of the input and the word is next behind it. -/
theorem scan_key_iff (key input word : List Char) :
    scan (key.map .plain ++ [.space, .word]) input = [word] ↔
      ∃ tail gap, input = key ++ tail ∧ Word tail gap word := by
  rw [scan_plain]
  constructor
  · intro stored
    split at stored
    case isFalse => cases stored
    case isTrue leads =>
      obtain ⟨tail, rfl⟩ := List.isPrefixOf_iff_prefix.mp leads
      rw [List.drop_left, scan_space_word] at stored
      split at stored
      case isTrue => cases stored
      case isFalse some =>
        rw [List.cons.injEq] at stored
        exact ⟨tail, _, rfl, stored.1 ▸ nextWord_word some⟩
  · rintro ⟨tail, gap, rfl, behind⟩
    have full : word ≠ [] := by
      obtain ⟨-, -, -, full, -⟩ := behind
      exact full
    rw [if_pos (List.isPrefixOf_iff_prefix.mpr (List.prefix_append key tail)), List.drop_left,
      scan_space_word, behind.nextWord_eq, if_neg full]

theorem nextWord_append_space {space : Char} (blank : isSpace space = true) (input : List Char) :
    nextWord (input ++ [space]) = nextWord input := by
  rw [nextWord, nextWord, List.dropWhile_append]
  split
  case isTrue all =>
    rw [List.isEmpty_iff] at all
    simp [all, blank]
  case isFalse => exact LineReader.takeWhile_append_stop (by simp [blank]) _

theorem scan_key_append_space {key : List Char} {space : Char} (blank : isSpace space = true)
    (other : space ∉ key) (input : List Char) :
    scan (key.map .plain ++ [.space, .word]) (input ++ [space]) =
      scan (key.map .plain ++ [.space, .word]) input := by
  rw [scan_plain, scan_plain]
  by_cases leads : key.isPrefixOf input = true
  · obtain ⟨tail, rfl⟩ := List.isPrefixOf_iff_prefix.mp leads
    have longer : key.isPrefixOf (key ++ tail ++ [space]) = true := by
      rw [List.isPrefixOf_iff_prefix, List.append_assoc]
      exact List.prefix_append key _
    rw [if_pos leads, if_pos longer, List.drop_left, List.append_assoc, List.drop_left,
      scan_space_word, scan_space_word, nextWord_append_space blank]
  · have neither : ¬key.isPrefixOf (input ++ [space]) = true := by
      rw [List.isPrefixOf_iff_prefix, List.prefix_concat_iff]
      rintro (whole | within)
      · exact other (by simp [whole])
      · exact leads (List.isPrefixOf_iff_prefix.mpr within)
    rw [if_neg leads, if_neg neither]

theorem cString_append {last : Char} (solid : last ≠ Char.ofNat 0) (buffer : List Char) :
    cString (buffer ++ [last]) =
      if cString buffer = buffer then buffer ++ [last] else cString buffer := by
  unfold cString
  rw [List.takeWhile_append, List.takeWhile_cons_of_pos (by simpa using solid),
    List.takeWhile_nil]
  refine if_congr ?_ rfl rfl
  constructor
  · exact (List.takeWhile_prefix _).eq_of_length
  · exact congrArg List.length

end Scanf
