import OpcodeTables.Emit.Line
import OpcodeTables.Text.Blank

/-!
# Reading initializers

Generated sources initialize nested arrays by bracketed lists.  `Initializer.read` takes such a list apart into words
and lists, character by character, with the lists that are still open on a stack.  A piece of text adds the same items
wherever it stands (`Adds`), so the items of a text are those of its pieces, one after another: words before commas
(`adds_word`), and bracketed lists (`adds_group`), whose last word needs no comma (`Fills`).
-/

namespace OpcodeTables.Emit

/-- A part of an initializer: a word, or a bracketed list with the word before it. -/
inductive Item where
  | word (text : List Char)
  | group (head : List Char) (items : List Item)

/-- The word that positions lead to, one in each list on the way. -/
def Item.word? (items : List Item) : List Nat → Option (List Char)
  | [] => none
  | i :: path =>
    match items[i]? with
    | some (.word w) => if path = [] then some w else none
    | some (.group _ items) => word? items path
    | none => none

namespace Initializer

inductive Bracket where
  | round
  | square
  | curly
deriving DecidableEq

/-- The characters with a meaning in initializers. -/
inductive Mark where
  | comma
  | opening (b : Bracket)
  | closing (b : Bracket)
deriving DecidableEq

def mark? : Char → Option Mark
  | ',' => some .comma
  | '(' => some (.opening .round)
  | '[' => some (.opening .square)
  | '\x7b' => some (.opening .curly)
  | ')' => some (.closing .round)
  | ']' => some (.closing .square)
  | '\x7d' => some (.closing .curly)
  | _ => none

/-- A list that is being read: its bracket, the word before it, and the items so far, the last one first. -/
structure Level where
  bracket : Bracket
  head : List Char
  items : List Item

def Level.add (l : Level) (x : Item) : Level :=
  { l with items := x :: l.items }

def Level.addAll (l : Level) (xs : List Item) : Level :=
  { l with items := xs.reverse ++ l.items }

/-- A word that was read backwards, without the blanks behind it. -/
def spelled (word : List Char) : List Char :=
  (word.dropWhile Text.isBlank).reverse

/-- The list with the word that ends, if there is one. -/
def Level.finish (l : Level) (word : List Char) : Level :=
  if spelled word = [] then l else l.add (.word (spelled word))

/-- The items of the outermost open list and the text behind it. -/
def read (outer : List Level) (level : Level) (word : List Char) : List Char → Option (List Item × List Char)
  | [] => none
  | c :: cs =>
    match mark? c with
    | some .comma => read outer (level.finish word) [] cs
    | some (.opening b) => read (level :: outer) ⟨b, spelled word, []⟩ [] cs
    | some (.closing b) =>
      if b ≠ level.bracket then none
      else
        match outer with
        | [] => some ((level.finish word).items.reverse, cs)
        | l :: ls => read ls (l.add (.group level.head (level.finish word).items.reverse)) [] cs
    | none => if Text.isBlank c ∧ word = [] then read outer level [] cs else read outer level (c :: word) cs

/-- The items of a list after its opening bracket, and the text behind it. -/
def readList (b : Bracket) (s : List Char) : Option (List Item × List Char) :=
  read [] ⟨b, [], []⟩ [] s

/-! ### Single characters -/

theorem curly_opens : mark? '\x7b' = some (.opening .curly) :=
  rfl

theorem curly_closes : mark? '\x7d' = some (.closing .curly) :=
  rfl

theorem square_opens : mark? '[' = some (.opening .square) :=
  rfl

theorem square_closes : mark? ']' = some (.closing .square) :=
  rfl

section

variable {outer : List Level} {level : Level} {word cs : List Char} {c : Char}

theorem read_comma : read outer level word (',' :: cs) = read outer (level.finish word) [] cs := by
  rw [read.eq_def]
  rfl

theorem read_opening {b : Bracket} (h : mark? c = some (.opening b)) :
    read outer level word (c :: cs) = read (level :: outer) ⟨b, spelled word, []⟩ [] cs := by
  rw [read.eq_def]
  simp only [h]

theorem read_closing (h : mark? c = some (.closing level.bracket)) (l : Level) :
    read (l :: outer) level word (c :: cs) =
      read outer (l.add (.group level.head (level.finish word).items.reverse)) [] cs := by
  rw [read.eq_def]
  simp only [h, ne_eq, not_true_eq_false, if_false]

theorem read_end (h : mark? c = some (.closing level.bracket)) :
    read [] level word (c :: cs) = some ((level.finish word).items.reverse, cs) := by
  rw [read.eq_def]
  simp only [h, ne_eq, not_true_eq_false, if_false]

theorem read_blank (h : Text.isBlank c) (hm : mark? c = none) :
    read outer level [] (c :: cs) = read outer level [] cs := by
  rw [read.eq_def]
  simp only [hm, h, true_and, if_true]

theorem read_char (h : Text.isBlank c = false ∨ word ≠ []) (hm : mark? c = none) :
    read outer level word (c :: cs) = read outer level (c :: word) cs := by
  rw [read.eq_def]
  simp only [hm]
  rw [if_neg]
  rintro ⟨hb, hw⟩
  rcases h with h | h
  · rw [h] at hb
    cases hb
  · exact h hw

end

/-! ### Words -/

/-- A text of blanks. -/
def Blank (s : List Char) : Prop :=
  ∀ c ∈ s, Text.isBlank c

/-- A text without marks. -/
def Unmarked (s : List Char) : Prop :=
  ∀ c ∈ s, mark? c = none

/-- A text without marks that begins and ends with no blank. -/
structure Plain (w : List Char) : Prop where
  unmarked : Unmarked w
  head : ∀ c ∈ w.head?, Text.isBlank c = false
  last : ∀ c ∈ w.getLast?, Text.isBlank c = false

-- the instances run through the texts, not through all characters
instance (s : List Char) : Decidable (Blank s) :=
  decidable_of_iff (s.all Text.isBlank = true) List.all_eq_true

instance (s : List Char) : Decidable (Unmarked s) :=
  decidable_of_iff (s.all (fun c => mark? c = none) = true) (by simp [Unmarked])

instance (w : List Char) : Decidable (Plain w) :=
  decidable_of_iff
    (Unmarked w ∧ w.head?.all (fun c => !Text.isBlank c) = true ∧ w.getLast?.all (fun c => !Text.isBlank c) = true)
    ⟨fun ⟨hu, hh, hl⟩ => ⟨hu, by simpa [Option.all_eq_true] using hh, by simpa [Option.all_eq_true] using hl⟩,
      fun ⟨hu, hh, hl⟩ => ⟨hu, by simpa [Option.all_eq_true] using hh, by simpa [Option.all_eq_true] using hl⟩⟩

theorem blank_nil : Blank [] := by
  decide

theorem blank_space : Blank [' '] := by
  decide

theorem blank_newline : Blank ['\n'] := by
  decide

theorem plain_nil : Plain [] := by
  decide

/-- A label before a word belongs to the word. -/
theorem Plain.labelled {a w : List Char} {c : Char} (hw : Plain w) (hne : w ≠ []) (hu : Unmarked (c :: a))
    (hc : Text.isBlank c = false) : Plain (c :: a ++ w) := by
  refine ⟨fun d hd => ?_, fun d hd => ?_, fun d hd => ?_⟩
  · rcases List.mem_append.1 hd with hd | hd
    · exact hu d hd
    · exact hw.unmarked d hd
  · cases hd
    exact hc
  · rw [List.getLast?_append, List.getLast?_eq_some_getLast hne, Option.some_or] at hd
    exact hw.last d (by rwa [List.getLast?_eq_some_getLast hne])

theorem mark?_of_isBlank {c : Char} (h : Text.isBlank c) : mark? c = none := by
  unfold mark?
  split <;> first | rfl | (revert h; decide)

theorem spelled_plain {w b : List Char} (hw : Plain w) (hb : Blank b) : spelled (b.reverse ++ w.reverse) = w := by
  have hdrop : ∀ b : List Char, Blank b → (b ++ w.reverse).dropWhile Text.isBlank = w.reverse := by
    intro b hb
    induction b with
    | nil =>
      cases hr : w.reverse with
      | nil => rfl
      | cons c r =>
        have hl : w.getLast? = some c := by rw [List.getLast?_eq_head?_reverse, hr, List.head?_cons]
        simp [hw.last c hl]
    | cons c b ih =>
      rw [List.cons_append, List.dropWhile_cons_of_pos (hb c (by simp)), ih fun d hd => hb d (by simp [hd])]
  rw [spelled, hdrop b.reverse fun c hc => hb c (by simpa using hc), List.reverse_reverse]

/-- Behind its first character a word goes on up to the next mark. -/
theorem read_append_of_unmarked {s : List Char} (h : Unmarked s) (outer : List Level) (level : Level)
    {word : List Char} (hw : word ≠ []) (rest : List Char) :
    read outer level word (s ++ rest) = read outer level (s.reverse ++ word) rest := by
  induction s generalizing word with
  | nil => rfl
  | cons c s ih =>
    rw [List.cons_append, read_char (.inr hw) (h c (by simp)), ih (fun d hd => h d (by simp [hd])) (by simp),
      List.reverse_cons, List.append_assoc]
    rfl

theorem read_blanks {b : List Char} (hb : Blank b) (outer : List Level) (level : Level) (rest : List Char) :
    read outer level [] (b ++ rest) = read outer level [] rest := by
  induction b with
  | nil => rfl
  | cons c b ih =>
    have hc := hb c (by simp)
    rw [List.cons_append, read_blank hc (mark?_of_isBlank hc), ih fun d hd => hb d (by simp [hd])]

/-- A word with blanks behind it. -/
theorem read_plain {w b : List Char} (hw : Plain w) (hb : Blank b) (outer : List Level) (level : Level)
    (rest : List Char) :
    ∃ word, spelled word = w ∧ read outer level [] (w ++ (b ++ rest)) = read outer level word rest := by
  cases w with
  | nil => exact ⟨[], rfl, read_blanks hb outer level rest⟩
  | cons c w =>
    refine ⟨b.reverse ++ (c :: w).reverse, spelled_plain hw hb, ?_⟩
    have hu : Unmarked (w ++ b) := by
      intro d hd
      rcases List.mem_append.1 hd with hd | hd
      · exact hw.unmarked d (by simp [hd])
      · exact mark?_of_isBlank (hb d hd)
    -- the first character is no blank; after it blanks are read like letters and dropped from the end
    rw [List.cons_append, read_char (.inl (hw.head c rfl)) (hw.unmarked c (by simp)), ← List.append_assoc,
      read_append_of_unmarked hu outer level (by simp)]
    simp

/-! ### Pieces of text -/

theorem Level.finish_nil (l : Level) : l.finish [] = l :=
  rfl

theorem Level.finish_of_spelled {word w : List Char} (h : spelled word = w) (hne : w ≠ []) (l : Level) :
    l.finish word = l.add (.word w) := by
  rw [finish, h, if_neg hne]

@[simp] theorem Level.bracket_finish (l : Level) (word : List Char) : (l.finish word).bracket = l.bracket := by
  unfold finish
  split <;> rfl

@[simp] theorem Level.head_finish (l : Level) (word : List Char) : (l.finish word).head = l.head := by
  unfold finish
  split <;> rfl

/-- The end of a list ends its last word. -/
theorem read_finish {level : Level} {c : Char} (hc : mark? c = some (.closing level.bracket)) (outer : List Level)
    (word rest : List Char) : read outer level word (c :: rest) = read outer (level.finish word) [] (c :: rest) := by
  have hc' : mark? c = some (.closing (level.finish word).bracket) := by rw [Level.bracket_finish, hc]
  cases outer with
  | nil => rw [read_end hc, read_end hc', Level.finish_nil]
  | cons l ls => rw [read_closing hc, read_closing hc', Level.finish_nil, Level.head_finish]

/-- Reading the text adds the items to the list that is being read. -/
def Adds (s : List Char) (xs : List Item) : Prop :=
  ∀ outer level rest, read outer level [] (s ++ rest) = read outer (level.addAll xs) [] rest

/-- Reading the text before the end of a list adds the items to the list. -/
def Fills (s : List Char) (xs : List Item) : Prop :=
  ∀ outer level c rest, mark? c = some (.closing level.bracket) →
    read outer level [] (s ++ c :: rest) = read outer (level.addAll xs) [] (c :: rest)

theorem adds_blank {b : List Char} (hb : Blank b) : Adds b [] :=
  fun outer level rest => read_blanks hb outer level rest

theorem adds_comma : Adds [','] [] :=
  fun _ _ _ => read_comma

theorem Adds.append {s t : List Char} {xs ys : List Item} (hs : Adds s xs) (ht : Adds t ys) :
    Adds (s ++ t) (xs ++ ys) := by
  intro outer level rest
  rw [List.append_assoc, hs, ht]
  simp [Level.addAll]

theorem Adds.flatMap {α : Type} {f : α → List Char} {g : α → Item} {l : List α} (h : ∀ a ∈ l, Adds (f a) [g a]) :
    Adds (l.flatMap f) (l.map g) := by
  induction l with
  | nil => exact adds_blank blank_nil
  | cons a l ih => exact (h a (by simp)).append (ih fun b hb => h b (by simp [hb]))

/-- Words with their commas, joined by blanks. -/
theorem Adds.intercalate {α : Type} {sep : List Char} {f : α → List Char} {g : α → Item} (hsep : Adds sep [])
    {l : List α} (h : ∀ a ∈ l, Adds (f a) [g a]) : Adds (sep.intercalate (l.map f)) (l.map g) := by
  induction l with
  | nil => exact adds_blank blank_nil
  | cons a l ih =>
    have ha := h a (by simp)
    have hl := ih fun b hb => h b (by simp [hb])
    cases l with
    | nil => rwa [List.map_singleton, List.intercalate_singleton]
    | cons b l =>
      rw [List.map_cons, List.map_cons, List.intercalate_cons_cons, ← List.map_cons, List.append_assoc]
      exact ha.append (hsep.append hl)

theorem Adds.fills {s : List Char} {xs : List Item} (h : Adds s xs) : Fills s xs :=
  fun outer level c rest _ => h outer level (c :: rest)

theorem Adds.append_fills {s t : List Char} {xs ys : List Item} (hs : Adds s xs) (ht : Fills t ys) :
    Fills (s ++ t) (xs ++ ys) := by
  intro outer level c rest hc
  rw [List.append_assoc, hs, ht outer (level.addAll xs) c rest hc]
  simp [Level.addAll]

theorem adds_word {w b : List Char} (hw : Plain w) (hne : w ≠ []) (hb : Blank b) :
    Adds (w ++ (b ++ [','])) [.word w] := by
  intro outer level rest
  obtain ⟨word, hs, hr⟩ := read_plain hw hb outer level (',' :: rest)
  have happ : w ++ (b ++ [',']) ++ rest = w ++ (b ++ ',' :: rest) := by simp
  rw [happ, hr, read_comma, Level.finish_of_spelled hs hne]
  rfl

/-- The last word of a list needs no comma. -/
theorem fills_word {w b : List Char} (hw : Plain w) (hne : w ≠ []) (hb : Blank b) : Fills (w ++ b) [.word w] := by
  intro outer level c rest hc
  obtain ⟨word, hs, hr⟩ := read_plain hw hb outer level (c :: rest)
  rw [List.append_assoc, hr, read_finish hc, Level.finish_of_spelled hs hne]
  rfl

theorem fills_nil : Fills [] [] :=
  fun _ _ _ _ _ => rfl

/-- Words with commas between them. -/
theorem fills_intercalate {α : Type} {f : α → List Char} (h : ∀ a, Plain (f a)) (hne : ∀ a, f a ≠ []) (l : List α) :
    Fills ([',', ' '].intercalate (l.map f)) (l.map fun a => .word (f a)) := by
  induction l with
  | nil => exact fills_nil
  | cons a l ih =>
    cases l with
    | nil =>
      have hlast := fills_word (h a) (hne a) blank_nil
      rw [List.append_nil] at hlast
      rwa [List.map_singleton, List.intercalate_singleton]
    | cons b l =>
      have hfirst := (adds_word (h a) (hne a) blank_nil).append (adds_blank blank_space)
      have hall := hfirst.append_fills ih
      rw [List.map_cons, List.map_cons, List.intercalate_cons_cons, ← List.map_cons]
      simpa using hall

/-- A list with its brackets; the word before it may be empty. -/
theorem adds_group {w b s : List Char} {xs : List Item} {o c : Char} {k : Bracket} (hw : Plain w) (hb : Blank b)
    (ho : mark? o = some (.opening k)) (hc : mark? c = some (.closing k)) (h : Fills s xs) :
    Adds (w ++ (b ++ o :: s) ++ [c]) [.group w xs] := by
  intro outer level rest
  obtain ⟨word, hs, hr⟩ := read_plain hw hb outer level (o :: (s ++ c :: rest))
  have happ : w ++ (b ++ o :: s) ++ [c] ++ rest = w ++ (b ++ o :: (s ++ c :: rest)) := by simp
  -- the list is read on a level of its own, and its end hands it to the level below as one item
  rw [happ, hr, read_opening ho, hs, h _ _ _ _ hc, read_closing hc, Level.finish_nil]
  simp [Level.addAll]
  rfl

theorem readList_eq_some {s rest : List Char} {xs : List Item} {k : Bracket} {c : Char}
    (hc : mark? c = some (.closing k)) (h : Fills s xs) : readList k (s ++ c :: rest) = some (xs, rest) := by
  rw [readList, h _ _ _ _ hc, read_end hc, Level.finish_nil]
  simp [Level.addAll]

/-- A text adds the same items wherever it stands, and no others. -/
theorem Adds.unique {s : List Char} {xs ys : List Item} (hx : Adds s xs) (hy : Adds s ys) : xs = ys := by
  have hread : readList .curly (s ++ ['\x7d']) = some (xs, []) := readList_eq_some curly_closes hx.fills
  rw [readList_eq_some curly_closes hy.fills, Option.some.injEq, Prod.mk.injEq] at hread
  exact hread.1.symm

/-! ### Lines -/

private theorem blank_indent (n : Nat) : Blank (List.replicate (4 * n) ' ') := by
  intro c hc
  rw [List.eq_of_mem_replicate hc]
  rfl

theorem adds_line {l : Line} {xs : List Item} (h : Adds l.text.toList xs) : Adds l.chars xs := by
  have hline := ((adds_blank (blank_indent l.depth)).append h).append (adds_blank blank_newline)
  rwa [List.nil_append, List.append_nil] at hline

theorem Adds.append_lines {ls ms : List Line} {xs ys : List Item} (hs : Adds (ls.flatMap Line.chars) xs)
    (ht : Adds (ms.flatMap Line.chars) ys) : Adds ((ls ++ ms).flatMap Line.chars) (xs ++ ys) := by
  rw [List.flatMap_append]
  exact hs.append ht

theorem Adds.flatMap_lines {α : Type} {f : α → List Line} {g : α → Item} {l : List α}
    (h : ∀ a ∈ l, Adds ((f a).flatMap Line.chars) [g a]) : Adds ((l.flatMap f).flatMap Line.chars) (l.map g) := by
  rw [List.flatMap_assoc]
  exact Adds.flatMap h

theorem Adds.map_lines {α : Type} {f : α → Line} {g : α → Item} {l : List α} (h : ∀ a ∈ l, Adds (f a).chars [g a]) :
    Adds ((l.map f).flatMap Line.chars) (l.map g) := by
  rw [List.flatMap_map]
  exact Adds.flatMap h

theorem Adds.cons_line {l : Line} {ls : List Line} {xs ys : List Item} (hl : Adds l.chars xs)
    (hls : Adds (ls.flatMap Line.chars) ys) : Adds ((l :: ls).flatMap Line.chars) (xs ++ ys) := by
  rw [List.flatMap_cons]
  exact hl.append hls

theorem adds_word_line {w : List Char} (hw : Plain w) (hne : w ≠ []) {l : Line} (hl : l.text.toList = w ++ [',']) :
    Adds l.chars [.word w] := by
  refine adds_line ?_
  rw [hl]
  exact adds_word hw hne blank_nil

/-- A list whose opening and whose end stand on lines of their own. -/
theorem adds_group_lines {w b : List Char} {o c : Char} {k : Bracket} (hw : Plain w) (hb : Blank b)
    (ho : mark? o = some (.opening k)) (hc : mark? c = some (.closing k)) {body : List Line} {xs : List Item}
    (h : Adds (body.flatMap Line.chars) xs) {first last : Line} (hfirst : first.text.toList = w ++ (b ++ [o]))
    (hlast : last.text.toList = [c, ',']) : Adds ((first :: body ++ [last]).flatMap Line.chars) [.group w xs] := by
  have hbody := ((adds_blank blank_newline).append h).append (adds_blank (blank_indent last.depth))
  have hgroup := adds_group hw hb ho hc hbody.fills
  have hall := ((adds_blank (blank_indent first.depth)).append hgroup).append
    (adds_comma.append (adds_blank blank_newline))
  simp only [List.nil_append, List.append_nil] at hall
  have hchars : (first :: body ++ [last]).flatMap Line.chars =
      List.replicate (4 * first.depth) ' ' ++
        (w ++ (b ++ o :: (['\n'] ++ body.flatMap Line.chars ++ List.replicate (4 * last.depth) ' ')) ++ [c]) ++
          ([','] ++ ['\n']) := by
    simp [Line.chars, hfirst, hlast]
  rwa [hchars]

end Initializer
end OpcodeTables.Emit
