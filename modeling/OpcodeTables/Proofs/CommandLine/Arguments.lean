import Mathlib.Data.List.TakeWhile
import OpcodeTables.Checks
import OpcodeTables.CommandLine.Arguments

/-!
# Reading arguments

A grammar of arguments, apart from their reader. An argument spells items, each of them a flag or a setting with its
value, and it may leave a setting whose value is the next argument (`Spells`). Arguments that are written like this one
after the other (`Written`) can be read up to any point (`Given.arguments_append`), and what the reader accepts is
written so (`Given.exists_front`).

So arguments are read if and only if they are written in full and their items can be taken one after the other
(`Arguments.read_eq_ok_iff`), and they end the reading early if and only if they reach a flag that does so
(`Arguments.read_eq_help_iff`, `Arguments.read_eq_version_iff`). Whatever is asked for can be written
(`Arguments.read_words`).
-/

namespace OpcodeTables.CommandLine

/-- What arguments give. -/
inductive Item where
  | setting (s : Setting) (value : String)
  | flag (f : Flag)
deriving DecidableEq

def Given.take (g : Given) : Item → Except Stop Given
  | .setting s value => g.set s value
  | .flag f => g.raise f

/-- Takes items one after the other, up to the first one that is wrong or ends the reading. -/
def Given.takeAll (g : Given) (items : List Item) : Except Stop Given :=
  items.foldlM Given.take g

/-! ### The grammar -/

/-- The letters of options after one dash, what they give, and the setting whose value is to come. -/
inductive Letters : List Char → List Item → Option Setting → Prop where
  | nil : Letters [] [] none
  | flag {c : Char} {f : Flag} {cs : List Char} {items : List Item} {s : Option Setting}
    (hc : Opt.ofLetter? c = some (.flag f)) (hcs : Letters cs items s) : Letters (c :: cs) (.flag f :: items) s
  | apart {c : Char} {s : Setting} (hc : Opt.ofLetter? c = some (.setting s)) : Letters [c] [] (some s)
  | equals {c : Char} {s : Setting} {value : List Char} (hc : Opt.ofLetter? c = some (.setting s)) :
    Letters (c :: '=' :: value) [.setting s (String.ofList value)] none
  | attached {c : Char} {s : Setting} {value : List Char} (hc : Opt.ofLetter? c = some (.setting s))
    (hne : value ≠ []) (hequals : value.head? ≠ some '=') :
    Letters (c :: value) [.setting s (String.ofList value)] none

/-- An argument, what it gives, and the setting whose value is to come. -/
inductive Spells : String → List Item → Option Setting → Prop where
  | input {a : String} (ha : Given.isOption a = false) : Spells a [.setting .input a] none
  | flag {name : String} {f : Flag} (hname : Opt.ofName? name = some (.flag f)) : Spells ("--" ++ name) [.flag f] none
  | apart {name : String} {s : Setting} (hname : Opt.ofName? name = some (.setting s)) :
    Spells ("--" ++ name) [] (some s)
  | equals {name value : String} {s : Setting} (hname : Opt.ofName? name = some (.setting s)) :
    Spells ("--" ++ name ++ "=" ++ value) [.setting s value] none
  | letters {cs : List Char} {items : List Item} {s : Option Setting} (hne : cs ≠ []) (hcs : Letters cs items s) :
    Spells (String.ofList ('-' :: cs)) items s

/-- Arguments before which the value of a setting may be to come, and what they give. A value does not look like an
option. -/
inductive Written : Option Setting → List String → List Item → Prop where
  | nil : Written none [] []
  | value {s : Setting} {v : String} {as : List String} {items : List Item} (hv : Given.isOption v = false)
    (has : Written none as items) : Written (some s) (v :: as) (.setting s v :: items)
  | word {a : String} {s : Option Setting} {as : List String} {here items : List Item} (ha : Spells a here s)
    (has : Written s as items) : Written none (a :: as) (here ++ items)

/-- All arguments of a command line. After two dashes alone, each one is an input. -/
def Complete (as : List String) (items : List Item) : Prop :=
  Written none as items ∨
    ∃ front inputs given, as = front ++ "--" :: inputs ∧ Written none front given ∧
      items = given ++ inputs.map (.setting .input)

/-- An argument that gives the flags `fs` and then `f`. What comes after its letter makes no difference. -/
inductive Reaches : String → List Flag → Flag → Prop where
  | name {name : String} {f : Flag} (hname : Opt.ofName? name = some (.flag f)) : Reaches ("--" ++ name) [] f
  | letter {cs rest : List Char} {c : Char} {fs : List Flag} {f : Flag}
    (hcs : cs.map Opt.ofLetter? = fs.map fun f => some (.flag f)) (hc : Opt.ofLetter? c = some (.flag f)) :
    Reaches (String.ofList ('-' :: (cs ++ c :: rest))) fs f

/-- Arguments in which a flag is reached, all that comes before it being in order. -/
def Asks (f : Flag) (as : List String) : Prop :=
  ∃ front a rest items fs g, as = front ++ a :: rest ∧ Written none front items ∧ Reaches a fs f ∧
    Given.takeAll {} (items ++ fs.map .flag) = .ok g

namespace Given

variable {g g' : Given}

/-! ### Items -/

@[simp] theorem takeAll_nil (g : Given) : g.takeAll [] = .ok g := rfl

theorem takeAll_cons (g : Given) (i : Item) (items : List Item) :
    g.takeAll (i :: items) = (g.take i >>= fun g => g.takeAll items) :=
  List.foldlM_cons

@[simp] theorem takeAll_singleton (g : Given) (i : Item) : g.takeAll [i] = g.take i := by
  rw [takeAll_cons]
  cases g.take i <;> rfl

theorem takeAll_cons_eq_ok_iff {i : Item} {items : List Item} :
    g.takeAll (i :: items) = .ok g' ↔ ∃ g₁, g.take i = .ok g₁ ∧ g₁.takeAll items = .ok g' := by
  rw [takeAll_cons, bind_eq_ok_iff]

theorem takeAll_append_eq_ok_iff {items items' : List Item} :
    g.takeAll (items ++ items') = .ok g' ↔ ∃ g₁, g.takeAll items = .ok g₁ ∧ g₁.takeAll items' = .ok g' := by
  rw [takeAll, List.foldlM_append, bind_eq_ok_iff]
  rfl

theorem set_eq_error {s : Setting} {value : String} {e : Stop} (h : g.set s value = .error e) : e = .wrongUsage := by
  cases s
  all_goals
    simp only [set] at h
    split at h
    all_goals cases h <;> rfl

theorem map_set_ne_error {α : Type} {s : Setting} {value : String} {e : Stop} (he : e ≠ .wrongUsage) (φ : Given → α) :
    (g.set s value).map φ ≠ .error e := by
  cases hset : g.set s value with
  | error e' =>
    rw [set_eq_error hset]
    exact fun h => he (Except.error.inj h).symm
  | ok g' => nofun

/-- Whether a flag ends the reading early does not depend on what was given before it. -/
theorem raise_eq_error {f : Flag} {e : Stop} (he : e ≠ .wrongUsage) (h : g.raise f = .error e) (g' : Given) :
    g'.raise f = .error e := by
  cases f with
  | allowShadowed | check =>
    simp only [raise] at h
    split at h
    · exact absurd (Except.error.inj h).symm he
    · cases h
  | verbose => cases h
  | help | version => exact h

/-! ### Letters -/

theorem letters_eq_ok_iff {cs : List Char} {s : Option Setting} :
    g.letters cs = .ok (g', s) ↔ ∃ items, Letters cs items s ∧ g.takeAll items = .ok g' := by
  constructor
  · intro h
    induction cs generalizing g with
    | nil =>
      cases h
      exact ⟨[], .nil, rfl⟩
    | cons c cs ih =>
      unfold letters at h
      split at h
      · cases h
      · rename_i f hc
        split at h
        · cases h
        · rename_i g₁ hf
          obtain ⟨items, hcs, htake⟩ := ih h
          exact ⟨.flag f :: items, .flag hc hcs, takeAll_cons_eq_ok_iff.2 ⟨g₁, hf, htake⟩⟩
      · rename_i t hc
        split at h
        · cases h
          exact ⟨[], .apart hc, rfl⟩
        · rename_i value
          obtain ⟨g₁, hset, ⟨⟩⟩ := map_eq_ok_iff.1 h
          exact ⟨_, .equals hc, by simpa [take] using hset⟩
        · rename_i hne hequals
          obtain ⟨g₁, hset, ⟨⟩⟩ := map_eq_ok_iff.1 h
          refine ⟨_, .attached hc hne fun hhead => ?_, by simpa [take] using hset⟩
          obtain ⟨value, rfl⟩ := List.head?_eq_some_iff.1 hhead
          exact hequals value rfl
  · rintro ⟨items, hcs, htake⟩
    induction hcs generalizing g with
    | nil => simpa [letters] using htake
    | flag hc hcs ih =>
      obtain ⟨g₁, hf, htake⟩ := takeAll_cons_eq_ok_iff.1 htake
      rw [take] at hf
      simp only [letters, hc, hf]
      exact ih htake
    | apart hc => simpa [letters, hc] using htake
    | equals hc =>
      rw [takeAll_singleton, take] at htake
      simp [letters, hc, htake, Except.map]
    | @attached c s value hc hne hequals =>
      rw [takeAll_singleton, take] at htake
      simp only [letters, hc]
      split
      · contradiction
      · simp at hequals
      · simp [htake, Except.map]

/-- Only a flag ends the letters early, and what comes after it is not read. -/
theorem letters_eq_error_iff {cs : List Char} {e : Stop} (he : e ≠ .wrongUsage) :
    g.letters cs = .error e ↔ ∃ front c rest, ∃ fs : List Flag, ∃ f g', cs = front ++ c :: rest ∧
      front.map Opt.ofLetter? = fs.map (fun f => some (.flag f)) ∧ Opt.ofLetter? c = some (.flag f) ∧
      g.takeAll (fs.map .flag) = .ok g' ∧ g'.raise f = .error e := by
  constructor
  · intro h
    induction cs generalizing g with
    | nil => cases h
    | cons c cs ih =>
      unfold letters at h
      split at h
      · exact absurd (Except.error.inj h).symm he
      · rename_i f hc
        split at h
        · rename_i hf
          cases h
          exact ⟨[], c, cs, [], f, g, rfl, rfl, hc, rfl, hf⟩
        · rename_i g₁ hf
          obtain ⟨front, c', rest, fs, f', g', rfl, hfront, hc', htake, hraise⟩ := ih h
          exact ⟨c :: front, c', rest, f :: fs, f', g', rfl, by simp [hc, hfront], hc',
            takeAll_cons_eq_ok_iff.2 ⟨g₁, hf, htake⟩, hraise⟩
      · split at h
        · cases h
        · exact absurd h (map_set_ne_error he _)
        · exact absurd h (map_set_ne_error he _)
  · rintro ⟨front, c, rest, fs, f, g', rfl, hfront, hc, htake, hraise⟩
    induction front generalizing g fs with
    | nil =>
      obtain rfl := List.map_eq_nil_iff.1 hfront.symm
      cases htake
      simp only [List.nil_append, letters, hc, hraise]
    | cons c' front ih =>
      cases fs with
      | nil => simp at hfront
      | cons f' fs =>
        rw [List.map_cons, List.map_cons, List.cons.injEq] at hfront
        obtain ⟨g₁, hf, htake⟩ := takeAll_cons_eq_ok_iff.1 htake
        rw [take] at hf
        simp only [List.cons_append, letters, hfront.1, hf]
        exact ih fs hfront.2 htake

/-! ### One argument -/

theorem not_mem_of_ofName? {name : String} {o : Opt} (h : Opt.ofName? name = some o) : '=' ∉ name.toList := by
  unfold Opt.ofName? at h
  split at h
  all_goals first | decide | cases h

/-- What stands before the first equals sign, if there is one. -/
theorem equals_cases (cs : List Char) : '=' ∉ cs ∨ ∃ name value, cs = name ++ '=' :: value ∧ '=' ∉ name := by
  by_cases h : '=' ∈ cs
  · obtain ⟨name, value, hcs, hname⟩ := List.eq_append_cons_of_mem h
    exact .inr ⟨name, value, hcs, hname⟩
  · exact .inl h

theorem word_of_not_mem {cs : List Char} (h : '=' ∉ cs) :
    g.word cs = match Opt.ofName? (String.ofList cs) with
      | some (.flag f) => (g.raise f).map (·, none)
      | some (.setting s) => .ok (g, some s)
      | none => .error .wrongUsage := by
  have hname : cs.takeWhile (· ≠ '=') = cs := List.takeWhile_eq_self_iff.2 fun c hc => by
    simpa using ne_of_mem_of_not_mem hc h
  simp only [word, hname, List.drop_length]
  cases Opt.ofName? (String.ofList cs) with
  | none => rfl
  | some o => cases o <;> rfl

theorem word_append_equals {name : List Char} (value : List Char) (h : '=' ∉ name) :
    g.word (name ++ '=' :: value) = match Opt.ofName? (String.ofList name) with
      | some (.setting s) => (g.set s (String.ofList value)).map (·, none)
      | _ => .error .wrongUsage := by
  have hname : (name ++ '=' :: value).takeWhile (· ≠ '=') = name := by
    rw [List.takeWhile_append_of_pos fun c hc => by simpa using ne_of_mem_of_not_mem hc h]
    simp
  simp only [word, hname, List.drop_left]
  cases Opt.ofName? (String.ofList name) with
  | none => rfl
  | some o => cases o <;> rfl

/-- An argument is no option, or it stands after two dashes or after one. -/
theorem argument_cases (a : String) :
    isOption a = false ∨ (∃ cs, a = "--" ++ String.ofList cs) ∨
      ∃ cs, a = String.ofList ('-' :: cs) ∧ cs ≠ [] ∧ cs.head? ≠ some '-' := by
  fun_cases isOption a with
  | case1 c cs ha =>
    by_cases hc : c = '-'
    · subst hc
      exact .inr (.inl ⟨cs, String.toList_injective (by simp [ha])⟩)
    · exact .inr (.inr ⟨c :: cs, String.toList_injective (by simp [ha]), by simp, by simpa using hc⟩)
  | case2 => exact .inl rfl

theorem argument_of_not_isOption {a : String} (ha : isOption a = false) :
    g.argument a = (g.set .input a).map (·, none) := by
  unfold isOption at ha
  unfold argument
  split at ha
  · cases ha
  · rename_i hno
    split
    · rename_i cs h
      exact absurd h (hno _ _)
    · rename_i c cs h
      exact absurd h (hno _ _)
    · rfl

theorem argument_dashes (cs : List Char) : g.argument ("--" ++ String.ofList cs) = g.word cs := by
  simp [argument]

theorem argument_dash {cs : List Char} (hne : cs ≠ []) (hhead : cs.head? ≠ some '-') :
    g.argument (String.ofList ('-' :: cs)) = g.letters cs := by
  obtain ⟨c, cs, rfl⟩ := List.exists_cons_of_ne_nil hne
  -- the letter is no second dash, so the first pattern does not apply
  have hc : c ≠ '-' := by simpa using hhead
  simp [argument]

theorem argument_name {name : String} {o : Opt} (hname : Opt.ofName? name = some o) :
    g.argument ("--" ++ name) = match o with
      | .flag f => (g.raise f).map (·, none)
      | .setting s => .ok (g, some s) := by
  have hword := argument_dashes (g := g) name.toList
  rw [word_of_not_mem (not_mem_of_ofName? hname), String.ofList_toList, hname] at hword
  rw [hword]
  cases o <;> rfl

theorem argument_equals {name : String} {s : Setting} (hname : Opt.ofName? name = some (.setting s)) (value : String) :
    g.argument ("--" ++ name ++ "=" ++ value) = (g.set s value).map (·, none) := by
  have ha : "--" ++ name ++ "=" ++ value = "--" ++ String.ofList (name.toList ++ '=' :: value.toList) :=
    String.toList_injective (by simp)
  rw [ha, argument_dashes, word_append_equals _ (not_mem_of_ofName? hname), String.ofList_toList, String.ofList_toList,
    hname]

theorem ne_dash_of_ofLetter? {c : Char} {o : Opt} (h : Opt.ofLetter? c = some o) : c ≠ '-' := by
  rintro rfl
  cases h

theorem head?_ne_of_letters {cs : List Char} {items : List Item} {s : Option Setting} (h : Letters cs items s) :
    cs.head? ≠ some '-' := by
  cases h with
  | nil => nofun
  | flag hc | apart hc | equals hc | attached hc => simpa using ne_dash_of_ofLetter? hc

theorem exists_spells_of_word {cs : List Char} {s : Option Setting} (h : g.word cs = .ok (g', s)) :
    ∃ items, Spells ("--" ++ String.ofList cs) items s ∧ g.takeAll items = .ok g' := by
  rcases equals_cases cs with hcs | ⟨name, value, rfl, hname⟩
  · rw [word_of_not_mem hcs] at h
    split at h
    · rename_i f hf
      obtain ⟨g₁, hraise, ⟨⟩⟩ := map_eq_ok_iff.1 h
      exact ⟨_, .flag hf, by simpa [take] using hraise⟩
    · rename_i t ht
      cases h
      exact ⟨[], .apart ht, rfl⟩
    · cases h
  · rw [word_append_equals value hname] at h
    split at h
    · rename_i t ht
      obtain ⟨g₁, hset, ⟨⟩⟩ := map_eq_ok_iff.1 h
      have ha : "--" ++ String.ofList (name ++ '=' :: value) =
          "--" ++ String.ofList name ++ "=" ++ String.ofList value := String.toList_injective (by simp)
      rw [ha]
      exact ⟨_, .equals ht, by simpa [take] using hset⟩
    · cases h

theorem argument_eq_ok_iff {a : String} {s : Option Setting} :
    g.argument a = .ok (g', s) ↔ ∃ items, Spells a items s ∧ g.takeAll items = .ok g' := by
  constructor
  · intro h
    rcases argument_cases a with ha | ⟨cs, rfl⟩ | ⟨cs, rfl, hne, hhead⟩
    · rw [argument_of_not_isOption ha] at h
      obtain ⟨g₁, hset, ⟨⟩⟩ := map_eq_ok_iff.1 h
      exact ⟨_, .input ha, by simpa [take] using hset⟩
    · rw [argument_dashes] at h
      exact exists_spells_of_word h
    · rw [argument_dash hne hhead] at h
      obtain ⟨items, hcs, htake⟩ := letters_eq_ok_iff.1 h
      exact ⟨items, .letters hne hcs, htake⟩
  · rintro ⟨items, ha, htake⟩
    cases ha with
    | input ha =>
      rw [takeAll_singleton, take] at htake
      rw [argument_of_not_isOption ha, htake]
      rfl
    | flag hname =>
      rw [takeAll_singleton, take] at htake
      rw [argument_name hname]
      dsimp only
      rw [htake]
      rfl
    | apart hname =>
      cases htake
      exact argument_name hname
    | equals hname =>
      rw [takeAll_singleton, take] at htake
      rw [argument_equals hname, htake]
      rfl
    | letters hne hcs =>
      rw [argument_dash hne (head?_ne_of_letters hcs)]
      exact letters_eq_ok_iff.2 ⟨items, hcs, htake⟩

theorem exists_reaches_of_word {cs : List Char} {e : Stop} (he : e ≠ .wrongUsage) (h : g.word cs = .error e) :
    ∃ f, Reaches ("--" ++ String.ofList cs) [] f ∧ g.raise f = .error e := by
  rcases equals_cases cs with hcs | ⟨name, value, rfl, hname⟩
  · rw [word_of_not_mem hcs] at h
    split at h
    · rename_i f hf
      refine ⟨f, .name hf, ?_⟩
      cases hraise : g.raise f with
      | error e' => simpa [hraise, Except.map] using h
      | ok g₁ => simp [hraise, Except.map] at h
    · cases h
    · exact absurd (Except.error.inj h).symm he
  · rw [word_append_equals value hname] at h
    split at h
    · exact absurd h (map_set_ne_error he _)
    · exact absurd (Except.error.inj h).symm he

theorem argument_eq_error_iff {a : String} {e : Stop} (he : e ≠ .wrongUsage) :
    g.argument a = .error e ↔
      ∃ fs f g', Reaches a fs f ∧ g.takeAll (fs.map .flag) = .ok g' ∧ g'.raise f = .error e := by
  constructor
  · intro h
    rcases argument_cases a with ha | ⟨cs, rfl⟩ | ⟨cs, rfl, hne, hhead⟩
    · rw [argument_of_not_isOption ha] at h
      exact absurd h (map_set_ne_error he _)
    · rw [argument_dashes] at h
      obtain ⟨f, hreaches, hraise⟩ := exists_reaches_of_word he h
      exact ⟨[], f, g, hreaches, rfl, hraise⟩
    · rw [argument_dash hne hhead] at h
      obtain ⟨front, c, rest, fs, f, g', rfl, hfront, hc, htake, hraise⟩ := (letters_eq_error_iff he).1 h
      exact ⟨fs, f, g', .letter hfront hc, htake, hraise⟩
  · rintro ⟨fs, f, g', ha, htake, hraise⟩
    cases ha with
    | name hname =>
      cases htake
      rw [argument_name hname]
      dsimp only
      rw [hraise]
      rfl
    | @letter cs rest c fs f hcs hc =>
      have hhead : (cs ++ c :: rest).head? ≠ some '-' := by
        cases cs with
        | nil => simpa using ne_dash_of_ofLetter? hc
        | cons c' cs =>
          cases fs with
          | nil => cases hcs
          | cons f' fs => simpa using ne_dash_of_ofLetter? (List.cons.inj hcs).1
      rw [argument_dash (by simp) hhead]
      exact (letters_eq_error_iff he).2 ⟨cs, c, rest, fs, f, g', rfl, hcs, hc, htake, hraise⟩

/-! ### All arguments -/

/-- What was written in front is read first. -/
theorem arguments_append {s : Option Setting} {front : List String} {items : List Item} (rest : List String)
    (hfront : Written s front items) (htake : g.takeAll items = .ok g') :
    g.arguments s (front ++ rest) = g'.arguments none rest := by
  induction hfront generalizing g with
  | nil =>
    cases htake
    rfl
  | value hv has ih =>
    obtain ⟨g₁, hset, htake⟩ := takeAll_cons_eq_ok_iff.1 htake
    rw [take] at hset
    simp only [List.cons_append, arguments, hv, hset]
    exact ih htake
  | @word a s as here items ha has ih =>
    obtain ⟨g₁, hhere, htake⟩ := takeAll_append_eq_ok_iff.1 htake
    have hargument := argument_eq_ok_iff.2 ⟨here, ha, hhere⟩
    have hdashes : a ≠ "--" := by
      rintro rfl
      cases hargument
    simp only [List.cons_append, arguments, hdashes, if_false, hargument]
    exact ih htake

theorem inputs_eq_takeAll (g : Given) (as : List String) : g.inputs as = g.takeAll (as.map (.setting .input)) := by
  induction as generalizing g with
  | nil => rfl
  | cons a as ih =>
    rw [List.map_cons, takeAll_cons, take, inputs]
    cases g.set .input a with
    | error e => rfl
    | ok g₁ => exact ih g₁

theorem inputs_eq_error {as : List String} {e : Stop} (h : g.inputs as = .error e) : e = .wrongUsage := by
  induction as generalizing g with
  | nil => cases h
  | cons a as ih =>
    rw [inputs] at h
    split at h
    · rename_i hset
      cases h
      exact set_eq_error hset
    · exact ih h

/-- How the reading of arguments ends at one that is no value. -/
inductive Ends (g : Given) : List String → Except Stop Given → Prop where
  | nil : Ends g [] (.ok g)
  | inputs {as : List String} : Ends g ("--" :: as) (g.inputs as)
  | stop {a : String} {rest : List String} {e : Stop} (ha : g.argument a = .error e) : Ends g (a :: rest) (.error e)

/-- Unless the arguments are wrong, the reader ends after some that are written as they should be. -/
theorem exists_front {s : Option Setting} {as : List String} (h : g.arguments s as ≠ .error .wrongUsage) :
    ∃ front rest items g', as = front ++ rest ∧ Written s front items ∧ g.takeAll items = .ok g' ∧
      Ends g' rest (g.arguments s as) := by
  -- an argument changes both what is given and which setting waits for its value
  induction as generalizing g s with
  | nil =>
    cases s with
    | none => exact ⟨[], [], [], g, rfl, .nil, rfl, .nil⟩
    | some t => exact absurd rfl h
  | cons a as ih =>
    cases s with
    | some t =>
      simp only [arguments] at h ⊢
      split at h
      · exact absurd rfl h
      · rename_i hoption
        rw [if_neg hoption]
        cases hset : g.set t a with
        | error e =>
          rw [hset, set_eq_error hset] at h
          exact absurd rfl h
        | ok g₁ =>
          rw [hset] at h
          obtain ⟨front, rest, items, g', rfl, hfront, htake, hends⟩ := ih h
          exact ⟨a :: front, rest, _, g', rfl, .value (by simpa using hoption) hfront,
            takeAll_cons_eq_ok_iff.2 ⟨g₁, hset, htake⟩, hends⟩
    | none =>
      simp only [arguments] at h ⊢
      by_cases hdashes : a = "--"
      · subst hdashes
        exact ⟨[], _, [], g, rfl, .nil, rfl, .inputs⟩
      · rw [if_neg hdashes] at h ⊢
        cases ha : g.argument a with
        | error e => exact ⟨[], _, [], g, rfl, .nil, rfl, .stop ha⟩
        | ok x =>
          obtain ⟨g₁, s⟩ := x
          rw [ha] at h
          obtain ⟨here, hspells, hhere⟩ := argument_eq_ok_iff.1 ha
          obtain ⟨front, rest, items, g', rfl, hfront, htake, hends⟩ := ih h
          exact ⟨a :: front, rest, _, g', rfl, .word hspells hfront,
            takeAll_append_eq_ok_iff.2 ⟨g₁, hhere, htake⟩, hends⟩

theorem arguments_eq_ok_iff {as : List String} :
    g.arguments none as = .ok g' ↔ ∃ items, Complete as items ∧ g.takeAll items = .ok g' := by
  constructor
  · intro h
    obtain ⟨front, rest, items, g₁, has, hfront, htake, hends⟩ := exists_front (s := none) (by rw [h]; nofun)
    rw [h] at hends
    generalize hx : (Except.ok g' : Except Stop Given) = x at hends
    cases hends with
    | nil =>
      cases hx
      exact ⟨items, .inl (by rwa [has, List.append_nil]), htake⟩
    | @inputs inputs =>
      refine ⟨_, .inr ⟨front, inputs, items, has, hfront, rfl⟩, ?_⟩
      rw [← hx]
      exact takeAll_append_eq_ok_iff.2 ⟨g₁, htake, by rw [← inputs_eq_takeAll, hx]⟩
    | stop ha => cases hx
  · rintro ⟨items, hwritten | ⟨front, inputs, given, rfl, hfront, rfl⟩, htake⟩
    · have h := arguments_append [] hwritten htake
      rwa [List.append_nil] at h
    · obtain ⟨g₁, hgiven, hinputs⟩ := takeAll_append_eq_ok_iff.1 htake
      rw [arguments_append _ hfront hgiven, arguments, if_pos rfl, inputs_eq_takeAll]
      exact hinputs

theorem arguments_eq_error_iff {as : List String} {e : Stop} (he : e ≠ .wrongUsage) :
    Given.arguments {} none as = .error e ↔ ∃ f, Asks f as ∧ ∀ g : Given, g.raise f = .error e := by
  constructor
  · intro h
    have hne : Given.arguments {} none as ≠ .error .wrongUsage := by
      rw [h]
      exact fun h => he (Except.error.inj h)
    obtain ⟨front, rest, items, g₁, has, hfront, htake, hends⟩ := exists_front hne
    rw [h] at hends
    generalize hx : (Except.error e : Except Stop Given) = x at hends
    cases hends with
    | nil => cases hx
    | inputs => exact absurd (inputs_eq_error hx.symm) he
    | @stop a rest e' ha =>
      cases hx
      obtain ⟨fs, f, g', hreaches, hfs, hraise⟩ := (argument_eq_error_iff he).1 ha
      exact ⟨f, ⟨front, a, rest, items, fs, g', has, hfront, hreaches, takeAll_append_eq_ok_iff.2 ⟨g₁, htake, hfs⟩⟩,
        raise_eq_error he hraise⟩
  · rintro ⟨f, ⟨front, a, rest, items, fs, g, rfl, hfront, hreaches, htake⟩, hraise⟩
    obtain ⟨g₁, hitems, hfs⟩ := takeAll_append_eq_ok_iff.1 htake
    have hargument := (argument_eq_error_iff he).2 ⟨fs, f, g, hreaches, hfs, hraise g⟩
    have hdashes : a ≠ "--" := by
      rintro rfl
      cases hargument
      exact he rfl
    rw [arguments_append _ hfront hitems]
    simp only [arguments, hdashes, if_false, hargument]

end Given

/-! ### Command lines -/

/-- An item as one argument. -/
def Item.word : Item → String
  | .setting .input value => value
  | .setting .output value => "--" ++ "output" ++ "=" ++ value
  | .setting .target value => "--" ++ "target" ++ "=" ++ value
  | .setting .namespaceName value => "--" ++ "namespace" ++ "=" ++ value
  | .flag .allowShadowed => "--" ++ "allow-shadowed-variants"
  | .flag .check => "--" ++ "check"
  | .flag .verbose => "--" ++ "verbose"
  | .flag .help => "--" ++ "help"
  | .flag .version => "--" ++ "version"

theorem spells_word {i : Item} (h : ∀ value, i ≠ .setting .input value) : Spells i.word [i] none := by
  cases i with
  | setting s value =>
    cases s with
    | input => exact absurd rfl (h value)
    | output | target | namespaceName => exact .equals rfl
  | flag f => cases f <;> exact .flag rfl

theorem written_of_forall {items : List Item} (h : ∀ i ∈ items, Spells i.word [i] none) :
    Written none (items.map Item.word) items := by
  induction items with
  | nil => exact .nil
  | cons i items ih =>
    obtain ⟨hi, hitems⟩ := List.forall_mem_cons.1 h
    exact .word hi (ih hitems)

namespace Arguments

/-- What was given when these arguments were read. -/
def given (a : Arguments) : Given where
  input := a.input
  output := a.output
  target := a.target
  namespaceName := a.namespaceName
  allowShadowed := a.allowShadowed
  check := a.check

theorem read_eq_ok_iff {as : List String} {a : Arguments} :
    read as = .ok a ↔ ∃ items, Complete as items ∧ Given.takeAll {} items = .ok a.given := by
  rw [← Given.arguments_eq_ok_iff, read]
  constructor
  · intro h
    split at h
    · cases h
    · rename_i hgiven
      cases h
      exact hgiven
    · cases h
  · intro h
    rw [h]
    rfl

/-- A flag and a setting in one argument, and a value after an equals sign. -/
example : read ["-vt", "rust", "isa.json", "-o=isa.rs"] =
    .ok ⟨"isa.json", "isa.rs", some .rust, none, false, false⟩ := by
  decide +kernel

theorem read_eq_error_iff {as : List String} {e : Stop} {f : Flag} (he : e ≠ .wrongUsage)
    (hf : ∀ f', (∀ g : Given, g.raise f' = .error e) ↔ f' = f) : read as = .error e ↔ Asks f as := by
  have hread : read as = .error e ↔ Given.arguments {} none as = .error e := by
    rw [read]
    constructor
    · intro h
      split at h
      · rename_i hgiven
        rw [hgiven, Except.error.inj h]
      · cases h
      · exact absurd (Except.error.inj h).symm he
    · intro h
      rw [h]
  rw [hread, Given.arguments_eq_error_iff he]
  constructor
  · rintro ⟨f', hasks, hraise⟩
    rwa [(hf f').1 hraise] at hasks
  · intro hasks
    exact ⟨f, hasks, (hf f).2 rfl⟩

theorem read_eq_help_iff {as : List String} : read as = .error .help ↔ Asks .help as := by
  refine read_eq_error_iff (by simp) fun f => ⟨fun h => ?_, ?_⟩
  · have hraise := h {}
    cases f <;> first | rfl | cases hraise
  · rintro rfl g
    rfl

theorem read_eq_version_iff {as : List String} : read as = .error .version ↔ Asks .version as := by
  refine read_eq_error_iff (by simp) fun f => ⟨fun h => ?_, ?_⟩
  · have hraise := h {}
    cases f <;> first | rfl | cases hraise
  · rintro rfl g
    rfl

/-- The options of arguments. -/
def options (a : Arguments) : List Item :=
  [.setting .output a.output] ++ (a.target.map fun t => .setting .target t.name).toList ++
    (a.namespaceName.map fun name => .setting .namespaceName name).toList ++
    (if a.allowShadowed then [.flag .allowShadowed] else []) ++ (if a.check then [.flag .check] else [])

/-- Arguments as a command line. The input comes last, after two dashes, so that it may look like an option. -/
def words (a : Arguments) : List String :=
  a.options.map Item.word ++ ["--", a.input]

theorem ne_input_of_mem_options {a : Arguments} {i : Item} (h : i ∈ a.options) (value : String) :
    i ≠ .setting .input value := by
  rintro rfl
  simp [options] at h

theorem takeAll_options {a : Arguments} (houtput : a.output ≠ "") :
    Given.takeAll {} a.options = .ok { a.given with input := none } := by
  obtain ⟨input, output, target, namespaceName, allowShadowed, check⟩ := a
  have hname : ∀ t : Target, Target.ofName? t.name = some t := by rintro (_ | _ | _ | _) <;> rfl
  let g : Given := { output }
  have h₁ : Given.takeAll {} [.setting .output output] = .ok g := by
    simpa [Given.take, Given.set, g] using houtput
  have h₂ : g.takeAll (target.map fun t => .setting .target t.name).toList = .ok { g with target } := by
    cases target with
    | none => rfl
    | some t => simp [Given.take, Given.set, hname, g]
  have h₃ : Given.takeAll { g with target } (namespaceName.map fun name => .setting .namespaceName name).toList =
      .ok { g with target, namespaceName } := by
    cases namespaceName <;> rfl
  have h₄ : Given.takeAll { g with target, namespaceName } (if allowShadowed then [.flag .allowShadowed] else []) =
      .ok { g with target, namespaceName, allowShadowed } := by
    cases allowShadowed <;> rfl
  have h₅ : Given.takeAll { g with target, namespaceName, allowShadowed } (if check then [.flag .check] else []) =
      .ok { g with target, namespaceName, allowShadowed, check } := by
    cases check <;> rfl
  have hall := Given.takeAll_append_eq_ok_iff.2 ⟨_, h₁, h₂⟩
  have hall := Given.takeAll_append_eq_ok_iff.2 ⟨_, hall, h₃⟩
  have hall := Given.takeAll_append_eq_ok_iff.2 ⟨_, hall, h₄⟩
  exact Given.takeAll_append_eq_ok_iff.2 ⟨_, hall, h₅⟩

/-- Arguments that are written as a command line are read back. -/
theorem read_words {a : Arguments} (hinput : a.input ≠ "") (houtput : a.output ≠ "") : read a.words = .ok a := by
  have hwritten : Written none (a.options.map Item.word) a.options :=
    written_of_forall fun i hi => spells_word (ne_input_of_mem_options hi)
  have htake : Given.takeAll { a.given with input := none } [.setting .input a.input] = .ok a.given := by
    simp [Given.take, Given.set, hinput, given]
  exact read_eq_ok_iff.2 ⟨_, .inr ⟨_, [a.input], _, rfl, hwritten, rfl⟩,
    Given.takeAll_append_eq_ok_iff.2 ⟨_, takeAll_options houtput, htake⟩⟩

end Arguments

end OpcodeTables.CommandLine
