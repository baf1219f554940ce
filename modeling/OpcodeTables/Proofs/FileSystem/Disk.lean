import OpcodeTables.Checks
import OpcodeTables.FileSystem.Disk
import OpcodeTables.Proofs.FileSystem.Volume
import OpcodeTables.Proofs.Path

/-!
# Disks as volumes

Without links a path leads where its text says (`location`), as long as its directory is there (`IsPlaced`): a walk that
gets through to the directory of an entry can be cut there (`descend_append`), so that every request on a placed path is
about the node of one location (`read_eq` and its companions).

A disk is a volume whose places are the paths of its locations (`places`, `volume`). What a request does to the disk it
does to the volume, and it leaves the directories as they are (`simulates`), so that the paths stay placed. By induction
a script does to a disk what it does to its volume (`run_volume`).
-/

namespace OpcodeTables.Disk

/-! ### Where paths lead -/

/-- The location after the next name of a path. -/
def enter (l : Location) (s : String) : Location :=
  if s = "" ∨ s = "." then l else if s = ".." then l.dropLast else l ++ [s]

/-- The location of a path as its text says it, seen from the directory `here`. -/
def location (here : Location) (p : String) : Location :=
  (pieces p).foldl enter (if Path.isAbsolute p then [] else here)

/-- The path of a location from the root. -/
def name (l : Location) : String :=
  "/" ++ "/".intercalate l

theorem foldl_pieces (l : Location) (p : String) :
    (pieces p).foldl enter l = ((Path.segments p.toList).map String.ofList).foldl enter l := by
  have hempty : ∀ l, enter l "" = l := fun l => if_pos (.inl rfl)
  have hskip : ∀ ss : List String, (ss.filter (· ≠ "")).foldl enter l = ss.foldl enter l := by
    intro ss
    rw [List.foldl_filter]
    congr
    funext l s
    by_cases hs : s = ""
    · simp [hs, hempty]
    · simp [hs]
  simp only [pieces, List.foldl_append, hskip]
  split
  · exact hempty _
  · rfl

theorem enter_of_isName {s : String} (hs : Path.IsName s) (l : Location) : enter l s = l ++ [s] := by
  have hempty : s ≠ "" := fun h => hs.ne_empty (by rw [h]; rfl)
  have hhere : s ≠ "." := fun h => hs.ne_here (by rw [h]; rfl)
  have hup : s ≠ ".." := fun h => hs.ne_up (by rw [h]; rfl)
  rw [enter, if_neg (by simp [hempty, hhere]), if_neg hup]

theorem foldl_enter_of_isName {ss : List String} (h : ∀ s ∈ ss, Path.IsName s) (l : Location) :
    ss.foldl enter l = l ++ ss := by
  induction ss generalizing l with
  | nil => simp
  | cons s ss ih =>
    obtain ⟨hs, hss⟩ := List.forall_mem_cons.1 h
    rw [List.foldl_cons, enter_of_isName hs, ih hss, List.append_assoc, List.singleton_append]

theorem toList_name (l : Location) : (name l).toList = '/' :: ['/'].intercalate (l.map String.toList) := by
  rw [name, String.toList_append, String.toList_intercalate]
  rfl

/-- The path of a location leads there. -/
theorem location_name {l : Location} (h : ∀ s ∈ l, Path.IsName s) (here : Location) : location here (name l) = l := by
  have habsolute : Path.isAbsolute (name l) = true := by simp [Path.isAbsolute, toList_name]
  rw [location, habsolute, if_pos rfl, foldl_pieces, toList_name]
  cases l with
  | nil => rfl
  | cons s ss =>
    have hslash : ∀ t ∈ (s :: ss).map String.toList, '/' ∉ t := by
      intro t ht
      obtain ⟨u, hu, rfl⟩ := List.mem_map.1 ht
      exact (h u hu).slash_not_mem
    have hsegments := Path.segments_intercalate (by simp) hslash
    rw [Path.segments, hsegments, List.map_cons, List.map_map, List.foldl_cons]
    have hid : (s :: ss).map (String.ofList ∘ String.toList) = s :: ss := by simp [Function.comp_def]
    rw [hid, foldl_enter_of_isName h]
    rfl

theorem name_inj {l l' : Location} (hl : ∀ s ∈ l, Path.IsName s) (hl' : ∀ s ∈ l', Path.IsName s)
    (h : name l = name l') : l = l' := by
  rw [← location_name hl [], h, location_name hl']

theorem isName_of_mem_foldl {ss : List String} (hss : ∀ s ∈ ss, '/' ∉ s.toList) {l : Location}
    (hl : ∀ s ∈ l, Path.IsName s) : ∀ s ∈ ss.foldl enter l, Path.IsName s := by
  induction ss generalizing l with
  | nil => exact hl
  | cons s ss ih =>
    obtain ⟨hs, hss⟩ := List.forall_mem_cons.1 hss
    refine ih hss fun t ht => ?_
    unfold enter at ht
    split at ht
    · exact hl t ht
    · rename_i hdot
      split at ht
      · exact hl t ((List.dropLast_sublist l).subset ht)
      · rename_i hup
        rcases List.mem_append.1 ht with ht | ht
        · exact hl t ht
        · rw [List.mem_singleton.1 ht]
          rw [not_or] at hdot
          refine ⟨hs, fun h => hdot.1 ?_, fun h => hdot.2 ?_, fun h => hup ?_⟩
          all_goals exact String.toList_injective h

theorem isName_of_mem_location {here : Location} (h : ∀ s ∈ here, Path.IsName s) (p : String) :
    ∀ s ∈ location here p, Path.IsName s := by
  rw [location, foldl_pieces]
  refine isName_of_mem_foldl (fun s hs => ?_) ?_
  · obtain ⟨cs, hcs, rfl⟩ := List.mem_map.1 hs
    rw [String.toList_ofList]
    exact Path.slash_not_mem_of_mem_segments hcs
  · split
    · simp
    · exact h

theorem cons_intercalate {ss : List (List Char)} (h : ss ≠ []) :
    '/' :: ['/'].intercalate ss = ss.flatMap ('/' :: ·) := by
  induction ss with
  | nil => exact absurd rfl h
  | cons s ss ih =>
    cases ss with
    | nil => simp
    | cons t ts =>
      rw [List.intercalate_cons_cons, List.flatMap_cons, ← ih (List.cons_ne_nil t ts)]
      simp

/-- A path that ends with a name leads to a location of that name. -/
theorem fileName?_name_location {here : Location} {p n : String} (h : Path.fileName? p = some n) :
    Path.fileName? (name (location here p)) = some n := by
  obtain ⟨ss, rest, hsegments, hrest⟩ := Path.exists_segments_of_fileName? h
  have hn := Path.isName_of_fileName? h
  have hskip : ∀ l, (rest.map String.ofList).foldl enter l = l := by
    clear hsegments
    induction rest with
    | nil => intro l; rfl
    | cons s rest ih =>
      intro l
      obtain ⟨hs, hrest⟩ := List.forall_mem_cons.1 hrest
      have henter : enter l (String.ofList s) = l := by rcases hs with rfl | rfl <;> rfl
      rw [List.map_cons, List.foldl_cons, henter, ih hrest]
  obtain ⟨l, hl⟩ : ∃ l, location here p = l ++ [n] := by
    rw [location, foldl_pieces, hsegments, List.map_append, List.map_cons, List.foldl_append, List.foldl_cons, hskip,
      String.ofList_toList, enter_of_isName hn]
    exact ⟨_, rfl⟩
  have hname : (name (l ++ [n])).toList = (l.map String.toList).flatMap ('/' :: ·) ++ '/' :: n.toList := by
    rw [toList_name, cons_intercalate (by simp), List.map_append, List.flatMap_append]
    simp
  rw [hl]
  refine Path.fileName?_of_segments (Path.segments ((l.map String.toList).flatMap ('/' :: ·))) hn ?_
  rw [hname, Path.segments_append_slash, Path.segments_of_slash_not_mem hn.slash_not_mem]

/-- Disks seen from a directory as places, of which none is a link. -/
def places (here : Location) : Places where
  place p := name (location here p)
  hasDirectory _ := true
  fileName?_place := fileName?_name_location

/-! ### Disks as volumes -/

/-- What a volume has where a disk has a node. -/
def Node.entry? : Node → Option Volume.Entry
  | .file bytes => some (.file bytes)
  | .directory => some .directory
  | .link _ => none

/-- A disk as a volume on which nothing fails by itself. The places are the paths of the locations. -/
def volume (d : Disk) : Volume where
  entries q := if name (location [] q) = q then (d.node? (location [] q)).bind Node.entry? else none
  failures _ := none

variable {d d' : Disk} {l l' : Location}

theorem entries_name (d : Disk) (hl : ∀ s ∈ l, Path.IsName s) :
    d.volume.entries (name l) = (d.node? l).bind Node.entry? := by
  simp only [volume, location_name hl, if_true]

private theorem lookup_cons_ite (k l : Location) (m : Node) (ns : List (Location × Node)) :
    ((k, m) :: ns).lookup l = if l = k then some m else ns.lookup l := by
  rw [List.lookup_cons]
  by_cases h : l = k
  · rw [h, beq_self_eq_true, if_pos rfl]
  · rw [beq_eq_false_iff_ne.2 h, if_neg h]

theorem lookup_put (l l' : Location) (n : Node) (ns : List (Location × Node)) :
    (put l n ns).lookup l' = if l' = l then some n else ns.lookup l' := by
  induction ns with
  | nil => exact lookup_cons_ite l l' n []
  | cons p ns ih =>
    obtain ⟨k, m⟩ := p
    rw [put]
    by_cases hk : k = l
    · rw [if_pos hk, lookup_cons_ite, lookup_cons_ite, hk]
      by_cases h : l' = l <;> simp only [h, if_true, if_false]
    · rw [if_neg hk, lookup_cons_ite, lookup_cons_ite, ih]
      by_cases h : l' = k
      · rw [if_pos h, if_pos h, if_neg (h ▸ hk)]
      · rw [if_neg h, if_neg h]

theorem lookup_filter_ne (l l' : Location) (ns : List (Location × Node)) :
    (ns.filter (·.1 ≠ l)).lookup l' = if l' = l then none else ns.lookup l' := by
  induction ns with
  | nil => simp
  | cons p ns ih =>
    obtain ⟨k, m⟩ := p
    by_cases hk : k = l
    · rw [List.filter_cons_of_neg (by simp [hk]), ih, lookup_cons_ite, hk]
      by_cases h : l' = l <;> simp only [h, if_true, if_false]
    · rw [List.filter_cons_of_pos (by simp [hk]), lookup_cons_ite, lookup_cons_ite, ih]
      by_cases h : l' = k
      · rw [if_pos h, if_pos h, if_neg (h ▸ hk)]
      · rw [if_neg h, if_neg h]

theorem node?_set (d : Disk) (n : Node) (hl : l ≠ []) :
    (d.set l n).node? l' = if l' = l then some n else d.node? l' := by
  unfold node? set
  by_cases h : l' = []
  · rw [if_pos h, if_pos h, if_neg (by simp [h, hl.symm])]
  · rw [if_neg h, if_neg h, lookup_put]

theorem node?_erase (d : Disk) (hl : l ≠ []) : (d.erase l).node? l' = if l' = l then none else d.node? l' := by
  unfold node? erase
  by_cases h : l' = []
  · rw [if_pos h, if_pos h, if_neg (by simp [h, hl.symm])]
  · rw [if_neg h, if_neg h, lookup_filter_ne]

/-- A disk that differs at one location is a volume that differs at one place. -/
theorem volume_eq_update {x : Option Node} (hl : ∀ s ∈ l, Path.IsName s)
    (h : ∀ l', d'.node? l' = if l' = l then x else d.node? l') :
    d'.volume = { d.volume with entries := Function.update d.volume.entries (name l) (x.bind Node.entry?) } := by
  have hentries : d'.volume.entries = Function.update d.volume.entries (name l) (x.bind Node.entry?) := by
    funext q
    by_cases hq : q = name l
    · rw [hq, Function.update_self, entries_name d' hl, h, if_pos rfl]
    · rw [Function.update_of_ne hq]
      unfold volume
      by_cases hname : name (location [] q) = q
      · have hne : location [] q ≠ l := fun heq => hq (by rw [← hname, heq])
        simp only [hname, if_true, h, hne, if_false]
      · simp only [hname, if_false]
  rw [← hentries]
  rfl

theorem volume_set (n : Node) (hl : ∀ s ∈ l, Path.IsName s) (hne : l ≠ []) :
    (d.set l n).volume = { d.volume with entries := Function.update d.volume.entries (name l) n.entry? } :=
  volume_eq_update hl fun _ => node?_set d n hne

theorem volume_erase (hl : ∀ s ∈ l, Path.IsName s) (hne : l ≠ []) :
    (d.erase l).volume = { d.volume with entries := Function.update d.volume.entries (name l) none } :=
  volume_eq_update (x := none) hl fun _ => node?_erase d hne

/-! ### Walks without links -/

/-- A disk without links, on which the current directory is named as directories are. -/
structure IsPlain (d : Disk) : Prop where
  no_link : ∀ l path, d.node? l ≠ some (.link path)
  names : ∀ s ∈ d.here, Path.IsName s

/-- Whether a path names an entry of a directory that is there. -/
def IsPlaced (d : Disk) (p : String) : Prop :=
  ∃ l, d.entry p = .ok (.name l false)

/-- Through directories, a walk goes where the text of the path says, over every disk that has these directories. -/
theorem descend_append {follow : Location → List String → Except Errno Found} {above rest : List String}
    {l₀ : Location} (d' : Disk) (creating : Bool) (follow' : Location → List String → Except Errno Found)
    (hd : d.IsPlain) (hsame : ∀ l, d.node? l = some .directory → d'.node? l = some .directory) (hne : rest ≠ [])
    (hrest : creating = false ∨ rest ≠ [""])
    (h : d.descend false follow l (above ++ [""]) = .ok (.directory l₀)) :
    l₀ = above.foldl enter l ∧ d'.descend creating follow' l (above ++ rest) = d'.descend creating follow' l₀ rest := by
  -- `h` ends in a directory, so every name above is one of a directory, and the other disk has it too
  induction above generalizing l with
  | nil =>
    cases h
    exact ⟨rfl, rfl⟩
  | cons s above ih =>
    have hcreating : ¬(creating = true ∧ above ++ rest = [""]) := by
      rintro ⟨hcreating, heq⟩
      rcases List.append_eq_singleton_iff.1 heq with ⟨-, hlast⟩ | ⟨-, hempty⟩
      · exact hrest.elim (by simp [hcreating]) (absurd hlast)
      · exact hne hempty
    rw [List.cons_append, descend] at h
    rw [List.cons_append, List.foldl_cons, descend, enter]
    split at h
    · rename_i hdot
      rw [if_pos hdot, if_pos hdot]
      exact ih h
    · rename_i hdot
      rw [if_neg hdot, if_neg hdot]
      split at h
      · rename_i hup
        rw [if_pos hup, if_pos hup]
        exact ih h
      · rename_i hup
        rw [if_neg hup, if_neg hup, if_neg hcreating]
        rw [if_neg (by simp)] at h
        split at h
        · cases h
        · rename_i hlong
          rw [if_neg hlong]
          split at h
          · split at h
            all_goals cases h
          · split at h
            all_goals cases h
          · rename_i hnode
            rw [hsame _ hnode]
            exact ih h
          · rename_i hnode
            exact absurd hnode (hd.no_link _ _)

/-- A path to an entry: the names above it, its own name, and the directory that it lies in. -/
structure Parts (d : Disk) (p : String) (above : List String) (s : String) (l₀ : Location) : Prop where
  check : checkPath p = .ok ()
  no_slash : p.toList.getLast? ≠ some '/'
  pieces_eq : pieces p = above ++ [s]
  ne_empty : s ≠ ""
  ne_here : s ≠ "."
  ne_up : s ≠ ".."
  short : isTooLong s = false
  descend_eq : d.descend false (d.walk false (maxLinks - 1)) (d.start p) (above ++ [""]) = .ok (.directory l₀)

/-- What a walk finds at its last name. -/
def found (d : Disk) (l : Location) : Found :=
  match d.node? l with
  | none => .missing l
  | some (.file bytes) => .file l bytes
  | some _ => .directory l

variable {p s : String} {above : List String} {l₀ : Location}

theorem pieces_eq_filter (hempty : p ≠ "") (hslash : p.toList.getLast? ≠ some '/') :
    pieces p = (pieces p).filter (· ≠ "") := by
  have hlast : ((Path.segments p.toList).map String.ofList).getLast? ≠ some "" := by
    rw [List.getLast?_map]
    intro h
    obtain ⟨cs, hcs, hnil⟩ := Option.map_eq_some_iff.1 h
    have hcs' : cs = [] := by simpa using congrArg String.toList hnil
    rw [hcs'] at hcs
    rcases Path.getLast?_of_segments hcs with h | h
    · exact hempty (String.toList_injective h)
    · exact hslash h
  simp only [pieces, hlast, if_false, List.append_nil, List.filter_filter, Bool.and_self]

theorem exists_parts (h : d.IsPlaced p) : ∃ above s l₀, Parts d p above s l₀ := by
  obtain ⟨l, h⟩ := h
  obtain ⟨u, hcheck, h⟩ := bind_eq_ok_iff.1 h
  obtain ⟨x, hwalk, h⟩ := bind_eq_ok_iff.1 h
  have hempty : p ≠ "" := by
    rintro rfl
    cases hcheck
  split at h
  · rename_i l₀
    split at h
    · cases h
    · cases h
    · cases h
    · rename_i s hhere hup hlast
      split at h
      · cases h
      · rename_i hlong
        have hslash : p.toList.getLast? ≠ some '/' := by
          intro hslash
          simp [hslash, pure, Except.pure] at h
        obtain ⟨above, habove⟩ := List.getLast?_eq_some_iff.1 hlast
        have hpieces : pieces p = above ++ [s] := (pieces_eq_filter hempty hslash).trans habove
        have hs : s ∈ (pieces p).filter (· ≠ "") := List.mem_of_getLast? hlast
        rw [habove, List.dropLast_concat] at hwalk
        exact ⟨above, s, l₀, hcheck, hslash, hpieces, by simpa using (List.mem_filter.1 hs).2, hhere, hup,
          by simpa using hlong, hwalk⟩
  · cases h

theorem Parts.entry_eq (h : Parts d p above s l₀) : d.entry p = .ok (.name (l₀ ++ [s]) false) := by
  have hempty : p ≠ "" := by
    rintro rfl
    cases h.check
  have hnames : (pieces p).filter (· ≠ "") = above ++ [s] := by
    rw [← pieces_eq_filter hempty h.no_slash, h.pieces_eq]
  refine bind_eq_ok_iff.2 ⟨(), h.check, bind_eq_ok_iff.2 ⟨.directory l₀, ?_, ?_⟩⟩
  · rw [hnames, List.dropLast_concat]
    exact h.descend_eq
  · simp only [hnames, List.getLast?_concat, h.no_slash]
    split
    · rename_i hlast
      cases hlast
    · rename_i hlast
      exact absurd (Option.some.inj hlast) h.ne_here
    · rename_i hlast
      exact absurd (Option.some.inj hlast) h.ne_up
    · rename_i hlast
      cases hlast
      rw [h.short]
      rfl

theorem Parts.location_eq (h : Parts d p above s l₀) (hd : d.IsPlain) : location d.here p = l₀ ++ [s] := by
  have hl₀ := (descend_append d false (d.walk false (maxLinks - 1)) hd (fun _ h => h) (by simp : [""] ≠ [])
    (.inl rfl) h.descend_eq).1
  rw [location, h.pieces_eq, List.foldl_append, hl₀, List.foldl_cons, List.foldl_nil, enter,
    if_neg (by simp [h.ne_empty, h.ne_here]), if_neg h.ne_up]
  rfl

theorem Parts.find_eq (h : Parts d p above s l₀) (hd : d.IsPlain) (creating : Bool) :
    d.find p creating = .ok (d.found (l₀ ++ [s])) := by
  have happend := (descend_append d creating (d.walk creating (maxLinks - 1)) hd (fun _ h => h) (by simp : [s] ≠ [])
    (.inr (by simp [h.ne_empty])) h.descend_eq).2
  have hlast : d.descend creating (d.walk creating (maxLinks - 1)) l₀ [s] = .ok (d.found (l₀ ++ [s])) := by
    rw [descend, if_neg (by simp [h.ne_empty, h.ne_here]), if_neg h.ne_up, if_neg (by simp), if_neg (by simp [h.short])]
    unfold found
    cases hnode : d.node? (l₀ ++ [s]) with
    | none => rfl
    | some n =>
      cases n with
      | file bytes => rfl
      | directory => rfl
      | link path => exact absurd hnode (hd.no_link _ _)
  rw [find, h.check, h.pieces_eq]
  exact happend.trans hlast

theorem IsPlaced.find_eq (hp : d.IsPlaced p) (hd : d.IsPlain) (creating : Bool) :
    d.find p creating = .ok (d.found (location d.here p)) := by
  obtain ⟨above, s, l₀, h⟩ := exists_parts hp
  rw [h.location_eq hd]
  exact h.find_eq hd creating

theorem IsPlaced.entry_eq (hp : d.IsPlaced p) (hd : d.IsPlain) : d.entry p = .ok (.name (location d.here p) false) := by
  obtain ⟨above, s, l₀, h⟩ := exists_parts hp
  rw [h.location_eq hd]
  exact h.entry_eq

theorem IsPlaced.location_ne_nil (hp : d.IsPlaced p) (hd : d.IsPlain) : location d.here p ≠ [] := by
  obtain ⟨above, s, l₀, h⟩ := exists_parts hp
  rw [h.location_eq hd]
  simp

/-- A name alone names an entry of the current directory. -/
theorem isPlaced_of_isName (d : Disk) (hp : Path.IsName p) (hshort : isTooLong p = false) : d.IsPlaced p := by
  have hempty : p ≠ "" := fun h => hp.ne_empty (by rw [h]; rfl)
  have hlength : ¬4096 ≤ p.utf8ByteSize := by
    have : ¬255 < p.utf8ByteSize := by simpa [isTooLong] using hshort
    omega
  have hslash : p.toList.getLast? ≠ some '/' := fun h => hp.slash_not_mem (List.mem_of_getLast? h)
  have hrelative : Path.isAbsolute p = false := by
    rw [Path.isAbsolute, decide_eq_false_iff_not]
    exact fun h => hp.slash_not_mem (List.mem_of_head? h)
  have hpieces : pieces p = [] ++ [p] := by
    rw [pieces, Path.segments_of_slash_not_mem hp.slash_not_mem]
    simp [hempty]
  have hparts : Parts d p [] p d.here :=
    { check := by rw [checkPath, if_neg hempty, if_neg hlength]
      no_slash := hslash
      pieces_eq := hpieces
      ne_empty := hempty
      ne_here := fun h => hp.ne_here (by rw [h]; rfl)
      ne_up := fun h => hp.ne_up (by rw [h]; rfl)
      short := hshort
      descend_eq := by rw [start, hrelative]; rfl }
  exact ⟨_, hparts.entry_eq⟩

/-! ### What requests keep -/

/-- A disk with the same directories as another one. -/
structure Keeps (d d' : Disk) : Prop where
  isPlain : d'.IsPlain
  here : d'.here = d.here
  directory : ∀ l, d'.node? l = some .directory ↔ d.node? l = some .directory

theorem Keeps.refl (hd : d.IsPlain) : Keeps d d :=
  ⟨hd, rfl, fun _ => Iff.rfl⟩

theorem Keeps.trans {d'' : Disk} (h : Keeps d d') (h' : Keeps d' d'') : Keeps d d'' :=
  ⟨h'.isPlain, h'.here.trans h.here, fun l => (h'.directory l).trans (h.directory l)⟩

theorem Keeps.isPlaced (h : Keeps d d') (hd : d.IsPlain) (hp : d.IsPlaced p) : d'.IsPlaced p := by
  obtain ⟨above, s, l₀, hparts⟩ := exists_parts hp
  have happend := (descend_append d' false (d'.walk false (maxLinks - 1)) hd (fun l => (h.directory l).2)
    (by simp : [""] ≠ []) (.inl rfl) hparts.descend_eq).2
  have hstart : d'.start p = d.start p := by rw [start, h.here, start]
  have hparts' : Parts d' p above s l₀ := { hparts with descend_eq := by rw [hstart]; exact happend }
  exact ⟨_, hparts'.entry_eq⟩

/-- A change at one location keeps the directories, if there was none and is none afterwards. -/
theorem keeps_of_node? {x : Option Node} (hd : d.IsPlain) (hhere : d'.here = d.here)
    (h : ∀ l', d'.node? l' = if l' = l then x else d.node? l') (hnode : d.node? l ≠ some .directory)
    (hx : x ≠ some .directory) (hlink : ∀ path, x ≠ some (.link path)) : Keeps d d' where
  isPlain := by
    refine ⟨fun l' path => ?_, hhere ▸ hd.names⟩
    rw [h]
    split
    · exact hlink path
    · exact hd.no_link l' path
  here := hhere
  directory l' := by
    rw [h]
    split
    · rename_i heq
      rw [heq]
      exact iff_of_false hx hnode
    · rfl

theorem keeps_set (hd : d.IsPlain) (hl : l ≠ []) (hnode : d.node? l ≠ some .directory) (bytes : List UInt8) :
    Keeps d (d.set l (.file bytes)) :=
  keeps_of_node? hd rfl (fun _ => node?_set d _ hl) hnode (by simp) (by simp)

theorem keeps_erase (hd : d.IsPlain) (hl : l ≠ []) (hnode : d.node? l ≠ some .directory) : Keeps d (d.erase l) :=
  keeps_of_node? (x := none) hd rfl (fun _ => node?_erase d hl) hnode (by simp) (by simp)

/-! ### Requests on a disk -/

theorem realPath_eq (hd : d.IsPlain) (hp : d.IsPlaced p) :
    d.realPath p =
      if (d.node? (location d.here p)).isSome then .ok (name (location d.here p)) else .error .noEntry := by
  unfold realPath
  rw [hp.find_eq hd]
  unfold found
  rcases d.node? (location d.here p) with _ | _ | _ | _ <;> rfl

theorem read_eq (hd : d.IsPlain) (hp : d.IsPlaced p) :
    d.read p = match d.node? (location d.here p) with
      | none => .error .noEntry
      | some (.file bytes) => .ok bytes
      | some _ => .error .isDirectory := by
  unfold read
  rw [hp.find_eq hd]
  unfold found
  rcases d.node? (location d.here p) with _ | _ | _ | _ <;> rfl

theorem create_eq (hd : d.IsPlain) (hp : d.IsPlaced p) :
    d.create p = match d.node? (location d.here p) with
      | none | some (.file _) => .ok (d.set (location d.here p) (.file []))
      | some _ => .error .isDirectory := by
  unfold create
  rw [hp.find_eq hd]
  unfold found
  rcases d.node? (location d.here p) with _ | _ | _ | _ <;> rfl

theorem write_eq (hd : d.IsPlain) (hp : d.IsPlaced p) (bytes : List UInt8) :
    d.write p bytes = match d.node? (location d.here p) with
      | none => .error .noEntry
      | some (.file _) => .ok (d.set (location d.here p) (.file bytes))
      | some _ => .error .isDirectory := by
  unfold write
  rw [hp.find_eq hd]
  unfold found
  rcases d.node? (location d.here p) with _ | _ | _ | _ <;> rfl

theorem remove_eq (hd : d.IsPlain) (hp : d.IsPlaced p) :
    d.remove p = match d.node? (location d.here p) with
      | none => .error .noEntry
      | some .directory => .error .isDirectory
      | some _ => .ok (d.erase (location d.here p)) := by
  unfold remove
  rw [hp.entry_eq hd]
  simp only [bind, Except.bind]
  rcases d.node? (location d.here p) with _ | _ | _ | _ <;> rfl

theorem rename_eq {source target : String} (hd : d.IsPlain) (hsource : d.IsPlaced source)
    (htarget : d.IsPlaced target) :
    d.rename source target = match d.node? (location d.here source) with
      | none => .error .noEntry
      | some .directory => .error .invalid
      | some n =>
        if d.node? (location d.here target) = some .directory then .error .isDirectory
        else if location d.here source = location d.here target then .ok d
        else .ok ((d.erase (location d.here source)).set (location d.here target) n) := by
  unfold rename
  rw [hsource.entry_eq hd, htarget.entry_eq hd]
  simp only [bind, Except.bind, Bool.false_eq_true, or_self, if_false]
  rcases d.node? (location d.here source) with _ | _ | _ | _ <;> rfl

/-! ### One request -/

/-- A request that a disk and its volume answer in the same way: its paths name entries of directories that are there,
and it moves no directory. -/
structure Admits (d : Disk) (r : Request) : Prop where
  placed : ∀ p ∈ r.paths, d.IsPlaced p
  file : ∀ source target, r = .change (.rename source target) →
    d.node? (location d.here source) ≠ some .directory

theorem Keeps.admits {r : Request} (h : Keeps d d') (hd : d.IsPlain) (hr : d.Admits r) : d'.Admits r where
  placed p hp := h.isPlaced hd (hr.placed p hp)
  file source target heq := by
    rw [h.here, Ne, h.directory]
    exact hr.file source target heq

/-- What a request does to a disk it does to the volume, and it keeps the directories. -/
def Simulates (d : Disk) (r : Request) : Prop :=
  (places d.here).machine r d.volume = ((machine r d).1, (machine r d).2.volume) ∧ Keeps d (machine r d).2

theorem entries_place (hd : d.IsPlain) (p : String) :
    d.volume.entries ((places d.here).place p) = (d.node? (location d.here p)).bind Node.entry? :=
  entries_name d (isName_of_mem_location hd.names p)

@[simp] theorem places_hasDirectory (here : Location) (q : String) : (places here).hasDirectory q = true := rfl

theorem IsPlain.node_cases (hd : d.IsPlain) (l : Location) :
    d.node? l = none ∨ (∃ bytes, d.node? l = some (.file bytes)) ∨ d.node? l = some .directory := by
  cases h : d.node? l with
  | none => exact .inl rfl
  | some n =>
    cases n with
    | file bytes => exact .inr (.inl ⟨bytes, rfl⟩)
    | directory => exact .inr (.inr rfl)
    | link path => exact absurd h (hd.no_link l path)

theorem absence?_eq (hd : d.IsPlain) (p : String) :
    (places d.here).absence? d.volume.entries p = match d.node? (location d.here p) with
      | none => some .noEntry
      | some .directory => some .isDirectory
      | some _ => none := by
  rw [Places.absence?, entries_place hd]
  rcases hd.node_cases (location d.here p) with h | ⟨bytes, h⟩ | h
  all_goals rw [h]; rfl

theorem simulates_of_error {c : Change} {e : Errno} (hd : d.IsPlain)
    (hobstacle : (places d.here).obstacle? d.volume.entries c = some e) (hchange : d.change c = .error e) :
    Simulates d (.change c) := by
  have hmachine : machine (.change c) d = (.error e, d) := by simp only [machine, hchange]
  have hattempt : (places d.here).machine (.change c) d.volume = (.error e, d.volume) := by
    have hattempt : (places d.here).attempt d.volume c = (.error e, d.volume) := by
      simp only [Places.attempt, hobstacle]
    rw [← hattempt]
    cases c <;> rfl
  rw [Simulates, hmachine]
  exact ⟨hattempt, .refl hd⟩

theorem simulates_of_ok {c : Change} (hobstacle : (places d.here).obstacle? d.volume.entries c = none)
    (hchange : d.change c = .ok d')
    (hvolume : d'.volume.entries = (places d.here).effect d.volume.entries c) (hkeeps : Keeps d d') :
    Simulates d (.change c) := by
  have hmachine : machine (.change c) d = (.ok (), d') := by simp only [machine, hchange]
  have hattempt : (places d.here).machine (.change c) d.volume = (.ok (), d'.volume) := by
    have hattempt : (places d.here).attempt d.volume c = (.ok (), d'.volume) := by
      simp only [Places.attempt, hobstacle, ← hvolume]
      rfl
    rw [← hattempt]
    cases c <;> rfl
  rw [Simulates, hmachine]
  exact ⟨hattempt, hkeeps⟩

theorem simulates_create (hd : d.IsPlain) (hp : d.IsPlaced p) : Simulates d (.change (.create p)) := by
  have hnames := isName_of_mem_location hd.names p
  have hne := hp.location_ne_nil hd
  have hcreate : d.change (.create p) = _ := create_eq hd hp
  have hset : (d.set (location d.here p) (.file [])).volume.entries =
      (places d.here).effect d.volume.entries (.create p) := by
    rw [volume_set _ hnames hne]
    rfl
  rcases hd.node_cases (location d.here p) with hnode | ⟨bytes, hnode⟩ | hnode
  all_goals rw [hnode] at hcreate
  · refine simulates_of_ok ?_ hcreate hset (keeps_set hd hne (by simp [hnode]) [])
    simp [Places.obstacle?, entries_place hd, hnode]
  · refine simulates_of_ok ?_ hcreate hset (keeps_set hd hne (by simp [hnode]) [])
    simp [Places.obstacle?, entries_place hd, hnode, Node.entry?]
  · refine simulates_of_error hd ?_ hcreate
    simp [Places.obstacle?, entries_place hd, hnode, Node.entry?]

theorem simulates_write (hd : d.IsPlain) (hp : d.IsPlaced p) (bytes : List UInt8) :
    Simulates d (.change (.write p bytes)) := by
  have hnames := isName_of_mem_location hd.names p
  have hne := hp.location_ne_nil hd
  have hwrite : d.change (.write p bytes) = _ := write_eq hd hp bytes
  have hobstacle := absence?_eq hd p
  rcases hd.node_cases (location d.here p) with hnode | ⟨old, hnode⟩ | hnode
  all_goals rw [hnode] at hwrite hobstacle
  · exact simulates_of_error hd hobstacle hwrite
  · refine simulates_of_ok hobstacle hwrite ?_ (keeps_set hd hne (by simp [hnode]) bytes)
    rw [volume_set _ hnames hne]
    rfl
  · exact simulates_of_error hd hobstacle hwrite

theorem simulates_sync (hd : d.IsPlain) (hp : d.IsPlaced p) : Simulates d (.change (.sync p)) := by
  have hread : d.change (.sync p) = (d.read p >>= fun _ => .ok d) := rfl
  rw [read_eq hd hp] at hread
  have hobstacle := absence?_eq hd p
  rcases hd.node_cases (location d.here p) with hnode | ⟨bytes, hnode⟩ | hnode
  all_goals rw [hnode] at hread hobstacle
  · exact simulates_of_error hd hobstacle hread
  · exact simulates_of_ok hobstacle hread rfl (.refl hd)
  · exact simulates_of_error hd hobstacle hread

theorem simulates_remove (hd : d.IsPlain) (hp : d.IsPlaced p) : Simulates d (.change (.remove p)) := by
  have hnames := isName_of_mem_location hd.names p
  have hne := hp.location_ne_nil hd
  have hremove : d.change (.remove p) = _ := remove_eq hd hp
  have hobstacle := absence?_eq hd p
  rcases hd.node_cases (location d.here p) with hnode | ⟨bytes, hnode⟩ | hnode
  all_goals rw [hnode] at hremove hobstacle
  · exact simulates_of_error hd hobstacle hremove
  · refine simulates_of_ok hobstacle hremove ?_ (keeps_erase hd hne (by simp [hnode]))
    rw [volume_erase hnames hne]
    rfl
  · exact simulates_of_error hd hobstacle hremove

theorem obstacle?_rename_eq_none {source target : String} {bytes : List UInt8} (hd : d.IsPlain)
    (hsource : d.node? (location d.here source) = some (.file bytes))
    (htarget : d.node? (location d.here target) ≠ some .directory) :
    (places d.here).obstacle? d.volume.entries (.rename source target) = none := by
  rw [Places.obstacle?, absence?_eq hd, hsource, entries_place hd]
  rcases hd.node_cases (location d.here target) with h | ⟨old, h⟩ | h
  · rw [h]; rfl
  · rw [h]; rfl
  · exact absurd h htarget

theorem simulates_rename {source target : String} (hd : d.IsPlain) (hsource : d.IsPlaced source)
    (htarget : d.IsPlaced target) (hfile : d.node? (location d.here source) ≠ some .directory) :
    Simulates d (.change (.rename source target)) := by
  have hrename : d.change (.rename source target) = _ := rename_eq hd hsource htarget
  have habsence := absence?_eq hd source
  rcases hd.node_cases (location d.here source) with hnode | ⟨bytes, hnode⟩ | hnode
  · rw [hnode] at hrename habsence
    refine simulates_of_error hd ?_ hrename
    rw [Places.obstacle?, habsence]
    rfl
  · have hmoved : d.volume.entries ((places d.here).place source) = some (.file bytes) := by
      rw [entries_place hd, hnode]
      rfl
    rw [hnode] at habsence
    simp only [hnode] at hrename
    by_cases hdirectory : d.node? (location d.here target) = some .directory
    · rw [if_pos hdirectory] at hrename
      refine simulates_of_error hd ?_ hrename
      simp [Places.obstacle?, habsence, entries_place hd, hdirectory, Node.entry?]
    · rw [if_neg hdirectory] at hrename
      have hobstacle := obstacle?_rename_eq_none hd hnode hdirectory
      -- two texts of one path: the disk stays, and the volume gets back the file that it loses
      by_cases hsame : location d.here source = location d.here target
      · rw [if_pos hsame] at hrename
        refine simulates_of_ok hobstacle hrename ?_ (.refl hd)
        have hplace : (places d.here).place source = (places d.here).place target := congrArg name hsame
        rw [Places.effect, hplace, Function.update_idem, Function.update_eq_self]
      · rw [if_neg hsame] at hrename
        have herase := keeps_erase hd (hsource.location_ne_nil hd) (by simp [hnode])
        have hleft : (d.erase (location d.here source)).node? (location d.here target) ≠ some .directory := by
          rwa [Ne, herase.directory]
        refine simulates_of_ok hobstacle hrename ?_
          (herase.trans (keeps_set herase.isPlain (htarget.location_ne_nil hd) hleft bytes))
        rw [volume_set _ (isName_of_mem_location hd.names target) (htarget.location_ne_nil hd),
          volume_erase (isName_of_mem_location hd.names source) (hsource.location_ne_nil hd), Places.effect, hmoved]
        rfl
  · exact absurd hnode hfile

theorem simulates (hd : d.IsPlain) {r : Request} (hr : d.Admits r) : Simulates d r := by
  cases r with
  | realPath p =>
    have hp := hr.placed p (by simp [Request.paths])
    refine ⟨?_, .refl hd⟩
    simp only [machine, realPath_eq hd hp, Places.machine, entries_place hd]
    rcases hd.node_cases (location d.here p) with h | ⟨bytes, h⟩ | h
    all_goals rw [h]; rfl
  | read p =>
    have hp := hr.placed p (by simp [Request.paths])
    refine ⟨?_, .refl hd⟩
    simp only [machine, read_eq hd hp, Places.machine, entries_place hd]
    rcases hd.node_cases (location d.here p) with h | ⟨bytes, h⟩ | h
    all_goals rw [h]; rfl
  | change c =>
    cases c with
    | create p => exact simulates_create hd (hr.placed p (by simp [Request.paths]))
    | write p bytes => exact simulates_write hd (hr.placed p (by simp [Request.paths])) bytes
    | sync p => exact simulates_sync hd (hr.placed p (by simp [Request.paths]))
    | remove p => exact simulates_remove hd (hr.placed p (by simp [Request.paths]))
    | rename source target =>
      exact simulates_rename hd (hr.placed source (by simp [Request.paths]))
        (hr.placed target (by simp [Request.paths])) (hr.file source target rfl)

/-! ### Runs -/

/-- A script does to a disk what it does to its volume. -/
theorem run_volume {α : Type} (t : Script α) {d : Disk} (hd : d.IsPlain)
    (ht : ∀ r ∈ t.requests machine d, d.Admits r) :
    t.run (places d.here).machine d.volume = ((t.run machine d).1, (t.run machine d).2.volume) ∧
      Keeps d (t.run machine d).2 := by
  -- the rest runs on another disk, which `Keeps` makes as good as the first one
  induction t generalizing d with
  | done a => exact ⟨rfl, .refl hd⟩
  | ask r next ih =>
    obtain ⟨hstep, hkeeps⟩ := simulates hd (ht r List.mem_cons_self)
    have hnext : ∀ r' ∈ (next (machine r d).1).requests machine (machine r d).2, (machine r d).2.Admits r' :=
      fun r' hr' => hkeeps.admits hd (ht r' (List.mem_cons_of_mem r hr'))
    obtain ⟨hrun, hrest⟩ := ih (machine r d).1 hkeeps.isPlain hnext
    rw [hkeeps.here] at hrun
    refine ⟨?_, hkeeps.trans hrest⟩
    rw [Script.run, hstep]
    exact hrun

/-- Where nothing is changed, the disk stays. -/
theorem snd_run_of_only {α : Type} {t : Script α} (ht : t.Only fun r => ∀ c, r ≠ .change c) (d : Disk) :
    (t.run machine d).2 = d := by
  induction t with
  | done a => rfl
  | ask r next ih =>
    obtain ⟨hr, hnext⟩ := ht
    cases r with
    | realPath p => exact ih _ (hnext _)
    | read p => exact ih _ (hnext _)
    | change c => exact absurd rfl (hr c)

theorem isPlain_fresh : fresh.IsPlain where
  no_link l path := by
    unfold node?
    split
    · simp
    · rw [fresh, lookup_cons_ite, lookup_cons_ite]
      repeat' split
      all_goals simp
  names := by decide +kernel

end OpcodeTables.Disk
