import Mathlib.Data.List.Basic

/-!
Reading a text line by line into a buffer of fixed size, as `fgets` of the C library
does, and the lines that a text consists of. A `Char` of a text stands for one of its bytes.
-/

namespace LineReader

/-- The first line with its newline, or as much of it as `limit` allows, and what is left. -/
def takeLine : Nat → List Char → List Char × List Char
  | 0, content => ([], content)
  | _ + 1, [] => ([], [])
  | limit + 1, char :: rest =>
      if char = '\n' then ([char], rest)
      else
        let (line, left) := takeLine limit rest
        (char :: line, left)

/-- `fgets` into a buffer of `size` characters, the last of which is for the terminator. -/
def fgets (size : Nat) : List Char → Option (List Char × List Char)
  | [] => none
  | char :: rest => some (takeLine (size - 1) (char :: rest))

def readLines (size : Nat) : Nat → List Char → List (List Char)
  | 0, _ => []
  | count + 1, content =>
      match fgets size content with
      | none => []
      | some (line, rest) => line :: readLines size count rest

def lines : List Char → List (List Char)
  | [] => []
  | char :: rest =>
      if char = '\n' then [char] :: lines rest
      else
        match lines rest with
        | [] => [[char]]
        | line :: later => (char :: line) :: later

theorem lines_newline (rest : List Char) : lines ('\n' :: rest) = ['\n'] :: lines rest := by
  simp [lines]

theorem lines_cons_of_nil {char : Char} {rest : List Char} (other : char ≠ '\n')
    (last : lines rest = []) : lines (char :: rest) = [[char]] := by
  simp [lines, other, last]

theorem lines_cons_of_cons {char : Char} {rest line : List Char} {later : List (List Char)}
    (other : char ≠ '\n') (more : lines rest = line :: later) :
    lines (char :: rest) = (char :: line) :: later := by
  simp [lines, other, more]

theorem lines_eq_nil_iff (content : List Char) : lines content = [] ↔ content = [] := by
  cases content with
  | nil => simp [lines]
  | cons char rest =>
      by_cases newline : char = '\n'
      · simp [newline, lines_newline]
      · cases more : lines rest with
        | nil => simp [lines_cons_of_nil newline more]
        | cons line later => simp [lines_cons_of_cons newline more]

theorem mem_lines {content line : List Char} (member : line ∈ lines content) :
    ∃ text, '\n' ∉ text ∧ (line = text ++ ['\n'] ∨ (line = text ∧ text ≠ [])) := by
  induction content generalizing line with
  | nil => simp [lines] at member
  | cons char rest ih =>
      by_cases newline : char = '\n'
      · subst newline
        rw [lines_newline] at member
        rcases List.mem_cons.mp member with rfl | later
        · exact ⟨[], by simp, Or.inl rfl⟩
        · exact ih later
      · cases more : lines rest with
        | nil =>
            rw [lines_cons_of_nil newline more] at member
            refine ⟨[char], ?_, Or.inr ⟨List.mem_singleton.mp member, by simp⟩⟩
            simpa using fun same => newline same.symm
        | cons first later =>
            rw [lines_cons_of_cons newline more] at member
            rcases List.mem_cons.mp member with rfl | behind
            · have here : first ∈ lines rest := by simp [more]
              obtain ⟨text, plain, shape⟩ := ih here
              refine ⟨char :: text, ?_, ?_⟩
              · simpa [plain] using fun same => newline same.symm
              · rcases shape with rfl | ⟨rfl, -⟩
                · exact Or.inl rfl
                · exact Or.inr ⟨rfl, by simp⟩
            · exact ih (by simp [more, behind])

theorem lines_append_newline {text : List Char} (plain : '\n' ∉ text) (rest : List Char) :
    lines (text ++ '\n' :: rest) = (text ++ ['\n']) :: lines rest := by
  induction text with
  | nil => exact lines_newline rest
  | cons char later ih =>
      obtain ⟨other, behind⟩ := not_or.mp (List.mem_cons.not.mp plain)
      exact lines_cons_of_cons (fun same => other same.symm) (ih behind)

def joinLines (texts : List (List Char)) : List Char := texts.flatMap fun text => text ++ ['\n']

theorem lines_joinLines {texts : List (List Char)} (plain : ∀ text ∈ texts, '\n' ∉ text) :
    lines (joinLines texts) = texts.map fun text => text ++ ['\n'] := by
  induction texts with
  | nil => rfl
  | cons text rest ih =>
      obtain ⟨here, behind⟩ := List.forall_mem_cons.mp plain
      rw [joinLines, List.flatMap_cons, List.append_assoc, List.singleton_append,
        lines_append_newline here, ← joinLines, ih behind, List.map_cons]

theorem takeWhile_append_stop {Item : Type*} {passes : Item → Bool} {stop : Item}
    (stops : passes stop = false) (items : List Item) :
    (items ++ [stop]).takeWhile passes = items.takeWhile passes := by
  rw [List.takeWhile_append]
  split
  case isTrue whole =>
    rw [List.takeWhile_cons_of_neg (by simp [stops]), List.append_nil]
    exact ((List.takeWhile_prefix passes).eq_of_length whole).symm
  case isFalse => rfl

theorem takeLine_first {content first : List Char} {later : List (List Char)} {limit : Nat}
    (split : lines content = first :: later) (fits : first.length ≤ limit) :
    ∃ rest, takeLine limit content = (first, rest) ∧ lines rest = later := by
  induction content generalizing first later limit with
  | nil => simp [lines] at split
  | cons char rest ih =>
      have positive : 0 < first.length := by
        have here : first ∈ lines (char :: rest) := by simp [split]
        obtain ⟨text, -, rfl | ⟨rfl, full⟩⟩ := mem_lines here
        · simp
        · exact List.length_pos_iff.mpr full
      obtain ⟨limit, rfl⟩ : ∃ less, limit = less + 1 := ⟨limit - 1, by omega⟩
      by_cases newline : char = '\n'
      · subst newline
        rw [lines_newline] at split
        obtain ⟨rfl, rfl⟩ := List.cons.inj split
        exact ⟨rest, by simp [takeLine], rfl⟩
      · cases more : lines rest with
        | nil =>
            rw [lines_cons_of_nil newline more] at split
            obtain ⟨rfl, rfl⟩ := List.cons.inj split
            have done := (lines_eq_nil_iff rest).mp more
            subst done
            exact ⟨[], by cases limit <;> simp [takeLine, newline], rfl⟩
        | cons line behind =>
            rw [lines_cons_of_cons newline more] at split
            obtain ⟨rfl, rfl⟩ := List.cons.inj split
            rw [List.length_cons] at fits
            obtain ⟨left, taken, remaining⟩ := ih more (Nat.le_of_succ_le_succ fits)
            exact ⟨left, by simp [takeLine, newline, taken], remaining⟩

/-- When all lines fit into the buffer, they are what `fgets` reads. -/
theorem readLines_eq {content : List Char} {size : Nat}
    (short : ∀ line ∈ lines content, line.length < size) (count : Nat) :
    readLines size count content = (lines content).take count := by
  induction count generalizing content with
  | zero => simp [readLines]
  | succ count ih =>
      cases split : lines content with
      | nil => simp [(lines_eq_nil_iff content).mp split, readLines, fgets]
      | cons first later =>
          have fits : first.length < size := short first (by simp [split])
          obtain ⟨rest, taken, remaining⟩ := takeLine_first split (Nat.le_sub_one_of_lt fits)
          cases content with
          | nil => simp [lines] at split
          | cons char tail =>
              simp only [readLines, fgets, taken, List.take_succ_cons]
              rw [ih (fun line member => short line (by simp [split, ← remaining, member])),
                remaining]

theorem length_readLines_le (size count : Nat) (content : List Char) :
    (readLines size count content).length ≤ count := by
  induction count generalizing content with
  | zero => simp [readLines]
  | succ count ih =>
      cases next : fgets size content with
      | none => simp [readLines, next]
      | some read =>
          simp only [readLines, next, List.length_cons]
          exact Nat.succ_le_succ (ih read.2)

theorem takeLine_append {limit : Nat} {content line rest : List Char}
    (taken : takeLine limit content = (line, rest)) : content = line ++ rest := by
  induction limit generalizing content line rest with
  | zero =>
      obtain ⟨rfl, rfl⟩ := Prod.mk.inj taken
      rfl
  | succ limit ih =>
      cases content with
      | nil =>
          obtain ⟨rfl, rfl⟩ := Prod.mk.inj taken
          rfl
      | cons char later =>
          by_cases newline : char = '\n'
          · simp only [takeLine, newline, if_true, Prod.mk.injEq] at taken
            obtain ⟨rfl, rfl⟩ := taken
            rw [newline, List.singleton_append]
          · rcases more : takeLine limit later with ⟨front, left⟩
            simp only [takeLine, newline, if_false, more, Prod.mk.injEq] at taken
            obtain ⟨rfl, rfl⟩ := taken
            rw [ih more, List.cons_append]

theorem fgets_append {size : Nat} {content line rest : List Char} (roomy : 2 ≤ size)
    (read : fgets size content = some (line, rest)) : content = line ++ rest ∧ line ≠ [] := by
  cases content with
  | nil => cases read
  | cons char later =>
      have taken := Option.some.inj read
      refine ⟨takeLine_append taken, ?_⟩
      obtain ⟨limit, same⟩ : ∃ limit, size - 1 = limit + 1 := ⟨size - 2, by omega⟩
      rw [same, takeLine] at taken
      split at taken
      case isTrue => exact (Prod.mk.inj taken).1 ▸ List.cons_ne_nil _ _
      case isFalse => exact (Prod.mk.inj taken).1 ▸ List.cons_ne_nil _ _

def chunks (size : Nat) (content : List Char) : List (List Char) :=
  readLines size content.length content

theorem readLines_nil (size count : Nat) : readLines size count [] = [] := by
  cases count <;> rfl

theorem readLines_enough {size : Nat} (roomy : 2 ≤ size) {count more : Nat} {content : List Char}
    (enough : content.length ≤ count) (enoughMore : content.length ≤ more) :
    readLines size count content = readLines size more content := by
  induction count generalizing more content with
  | zero =>
      rw [List.length_eq_zero_iff.mp (Nat.le_zero.mp enough), readLines_nil, readLines_nil]
  | succ count ih =>
      cases read : fgets size content with
      | none =>
          cases more <;> simp [readLines, read]
      | some result =>
          obtain ⟨line, rest⟩ := result
          obtain ⟨split, full⟩ := fgets_append roomy read
          have shorter : rest.length < content.length := by
            have := List.length_pos_iff.mpr full
            rw [split, List.length_append]
            omega
          obtain ⟨less, rfl⟩ : ∃ less, more = less + 1 := ⟨more - 1, by omega⟩
          have same : readLines size count rest = readLines size less rest :=
            ih (by omega) (by omega)
          simp only [readLines, read, same]

theorem chunks_cons {size : Nat} (roomy : 2 ≤ size) {content line rest : List Char}
    (read : fgets size content = some (line, rest)) :
    chunks size content = line :: chunks size rest := by
  obtain ⟨split, full⟩ := fgets_append roomy read
  have shorter : rest.length < content.length := by
    have := List.length_pos_iff.mpr full
    rw [split, List.length_append]
    omega
  obtain ⟨less, same⟩ : ∃ less, content.length = less + 1 := ⟨content.length - 1, by omega⟩
  rw [chunks, same]
  simp only [readLines, read]
  rw [chunks, readLines_enough roomy (by omega) (Nat.le_refl _)]

theorem readLines_take {size : Nat} (roomy : 2 ≤ size) (count : Nat) (content : List Char) :
    readLines size count content = (chunks size content).take count := by
  induction count generalizing content with
  | zero => rw [readLines, List.take_zero]
  | succ count ih =>
      cases read : fgets size content with
      | none =>
          cases content with
          | nil => rfl
          | cons char rest => cases read
      | some result =>
          rw [chunks_cons roomy read, List.take_succ_cons, ← ih]
          simp only [readLines, read]

theorem length_lines_le (content : List Char) : (lines content).length ≤ content.length := by
  induction content with
  | nil => simp [lines]
  | cons char rest ih =>
      simp only [lines]
      split
      case isTrue => simpa using ih
      case isFalse =>
        split
        case h_1 => simp
        case h_2 line later more =>
          rw [more] at ih
          simp only [List.length_cons] at ih ⊢
          omega

theorem chunks_eq_lines {content : List Char} {size : Nat}
    (short : ∀ line ∈ lines content, line.length < size) : chunks size content = lines content := by
  rw [chunks, readLines_eq short]
  exact List.take_of_length_le (length_lines_le content)

/-- A text that a further line can be put behind. -/
def LineEnd (content : List Char) : Prop := ∀ char, content.getLast? = some char → char = '\n'

theorem lineEnd_nil : LineEnd [] := by
  intro char last
  cases last

theorem lineEnd_of_getLast {content : List Char} (last : content.getLast? = some '\n') :
    LineEnd content := by
  intro char found
  rw [last] at found
  exact (Option.some.inj found).symm

theorem LineEnd.tail {char : Char} {rest : List Char} (ended : LineEnd (char :: rest)) :
    LineEnd rest := by
  intro last found
  apply ended
  rw [List.getLast?_cons, found]
  rfl

theorem takeLine_ended (limit : Nat) {front : List Char} (ended : LineEnd front)
    (some : front ≠ []) (back : List Char) :
    takeLine limit (front ++ back) =
        ((takeLine limit front).1, (takeLine limit front).2 ++ back) ∧
      LineEnd (takeLine limit front).2 := by
  induction limit generalizing front with
  | zero => exact ⟨rfl, ended⟩
  | succ limit ih =>
      obtain ⟨char, later, rfl⟩ := List.exists_cons_of_ne_nil some
      by_cases newline : char = '\n'
      · simp only [takeLine, newline, List.cons_append, if_true]
        exact ⟨trivial, ended.tail⟩
      · have more : later ≠ [] := by
          rintro rfl
          exact newline (ended char rfl)
        obtain ⟨taken, rest⟩ := ih ended.tail more
        simp only [takeLine, newline, List.cons_append, if_false, taken]
        exact ⟨trivial, rest⟩

/-- What is read of a text that ends with a line does not depend on what is behind it. -/
theorem chunks_append {size : Nat} (roomy : 2 ≤ size) {front : List Char}
    (ended : LineEnd front) (back : List Char) :
    chunks size (front ++ back) = chunks size front ++ chunks size back := by
  induction long : front.length using Nat.strongRecOn generalizing front with
  | ind length ih =>
      cases front with
      | nil => rfl
      | cons char later =>
          obtain ⟨taken, rest⟩ :=
            takeLine_ended (size - 1) ended (List.cons_ne_nil char later) back
          have read : fgets size (char :: later) = some (takeLine (size - 1) (char :: later)) := rfl
          have readBoth : fgets size (char :: later ++ back) =
              some ((takeLine (size - 1) (char :: later)).1,
                (takeLine (size - 1) (char :: later)).2 ++ back) := congrArg some taken
          obtain ⟨split, full⟩ := fgets_append roomy read
          have shorter : (takeLine (size - 1) (char :: later)).2.length < length := by
            have := List.length_pos_iff.mpr full
            have lengths := congrArg List.length split
            rw [List.length_append] at lengths
            omega
          rw [chunks_cons roomy readBoth, chunks_cons roomy read, ih _ shorter rest rfl,
            List.cons_append]

theorem length_takeLine_le (limit : Nat) (content : List Char) :
    (takeLine limit content).1.length ≤ limit := by
  induction limit generalizing content with
  | zero => simp [takeLine]
  | succ limit ih =>
      cases content with
      | nil => simp [takeLine]
      | cons char rest =>
          by_cases newline : char = '\n'
          · simp [takeLine, newline]
          · simp only [takeLine, newline, if_false, List.length_cons]
            exact Nat.succ_le_succ (ih rest)

theorem chunks_first {size : Nat} (roomy : 2 ≤ size) (char : Char) (rest : List Char) :
    ∃ piece left, fgets size (char :: rest) = some (char :: piece, left) ∧
      (char :: piece).length < size ∧
      chunks size (char :: rest) = (char :: piece) :: chunks size left := by
  rcases taken : takeLine (size - 1) (char :: rest) with ⟨line, left⟩
  have read : fgets size (char :: rest) = some (line, left) := congrArg some taken
  obtain ⟨split, full⟩ := fgets_append roomy read
  have bound : line.length ≤ size - 1 := by
    simpa only [taken] using length_takeLine_le (size - 1) (char :: rest)
  obtain ⟨first, piece, rfl⟩ := List.exists_cons_of_ne_nil full
  obtain rfl : char = first := (List.cons.inj split).1
  exact ⟨piece, left, read, by omega, chunks_cons roomy read⟩

/-- A line is read in one piece exactly when it fits into the buffer. -/
theorem chunks_line_iff {size : Nat} (roomy : 2 ≤ size) {text : List Char} (plain : '\n' ∉ text) :
    (chunks size (text ++ ['\n'])).length = 1 ↔ text.length + 1 < size := by
  have whole : lines (text ++ ['\n']) = [text ++ ['\n']] := lines_append_newline plain []
  constructor
  · intro one
    obtain ⟨char, rest, same⟩ : ∃ char rest, text ++ ['\n'] = char :: rest :=
      List.exists_cons_of_ne_nil (by simp)
    obtain ⟨piece, left, read, bound, split⟩ := chunks_first roomy char rest
    rw [same, split, List.length_cons, Nat.add_eq_right] at one
    have done : left = [] := by
      by_contra more
      obtain ⟨next, later, rfl⟩ := List.exists_cons_of_ne_nil more
      obtain ⟨second, others, -, -, behind⟩ := chunks_first roomy next later
      rw [behind] at one
      cases one
    have joined := (fgets_append roomy read).1
    rw [done, List.append_nil] at joined
    rw [← joined, ← same] at bound
    simpa using bound
  · intro fits
    rw [chunks_eq_lines (by simpa [whole] using fits), whole]
    rfl

end LineReader
