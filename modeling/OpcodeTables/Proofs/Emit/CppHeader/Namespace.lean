import Mathlib.Data.List.Chain
import OpcodeTables.Emit
import OpcodeTables.Proofs.Emit.CppHeader.Lines
import OpcodeTables.Proofs.Emit.Occurrence

/-!
# The namespace of C++ headers

A header names its namespace in the line that opens it and in the last line (`lines_eq_wrapped`).  In all other lines no
keyword has a space after it: no `e` has one but in the preamble (`silent_lines`).  So both lines occur once, and with
them the namespace is replaced by another one (`namespace_occurs_in_wrapper`).
-/

namespace OpcodeTables.Emit

/-! ### Lines without the keyword -/

/-- No space comes after an `e`, as one does after the keyword. -/
def Quiet (s : List Char) : Prop :=
  s.IsChain fun c d => c = 'e' → d ≠ ' '

instance (s : List Char) : Decidable (Quiet s) :=
  inferInstanceAs (Decidable (s.IsChain fun c d => c = 'e' → d ≠ ' '))

section

variable {s t : List Char}

theorem quiet_append_iff :
    Quiet (s ++ t) ↔ Quiet s ∧ Quiet t ∧ (s.getLast? = some 'e' → t.head? ≠ some ' ') := by
  rw [Quiet, List.isChain_append]
  refine and_congr_right fun _ => and_congr_right fun _ => ?_
  constructor
  · intro h hs ht
    exact h 'e' hs ' ' ht rfl rfl
  · rintro h c hs d ht rfl rfl
    exact h hs ht

theorem quiet_of_not_mem (h : ' ' ∉ s) : Quiet s := by
  induction s with
  | nil => exact .nil
  | cons c s ih =>
    rw [List.mem_cons, not_or] at h
    refine List.IsChain.cons (ih h.2) fun d hd _ => ?_
    rintro rfl
    exact h.2 (List.mem_of_head? hd)

/-- What has no space can follow. -/
theorem Quiet.append_word (hs : Quiet s) (ht : ' ' ∉ t) : Quiet (s ++ t) :=
  quiet_append_iff.2 ⟨hs, quiet_of_not_mem ht, fun _ hhead => ht (List.mem_of_head? hhead)⟩

theorem quiet_replicate_append (n : Nat) (h : Quiet s) : Quiet (List.replicate n ' ' ++ s) := by
  refine quiet_append_iff.2 ⟨List.isChain_replicate_of_rel n (by decide), h, fun he => ?_⟩
  cases List.eq_of_mem_replicate (List.mem_of_getLast? he)

theorem quiet_intercalate {ws : List (List Char)} (hws : ∀ w ∈ ws, ' ' ∉ w ∧ w.getLast? ≠ some 'e') :
    Quiet ([' '].intercalate ws) := by
  induction ws with
  | nil => exact .nil
  | cons w ws ih =>
    obtain ⟨⟨hspace, hlast⟩, hrest⟩ := List.forall_mem_cons.1 hws
    cases ws with
    | nil =>
      rw [List.intercalate_singleton]
      exact quiet_of_not_mem hspace
    | cons v ws =>
      rw [List.intercalate_cons_cons, quiet_append_iff, quiet_append_iff]
      exact ⟨⟨quiet_of_not_mem hspace, by decide, fun he => absurd he hlast⟩, ih hrest, by simp⟩

/-- A line of two words, with texts around them that are fixed. -/
theorem quiet_words {first w sep w' last : List Char}
    (hfixed : Quiet first ∧ Quiet sep ∧ sep.head? ≠ some ' ' ∧ ' ' ∉ last) (hw : ' ' ∉ w) (hw' : ' ' ∉ w') :
    Quiet (first ++ w ++ sep ++ w' ++ last) := by
  obtain ⟨hfirst, hsep, hhead, hlast⟩ := hfixed
  have hbefore := quiet_append_iff.2 ⟨hfirst.append_word hw, hsep, fun _ => hhead⟩
  exact (hbefore.append_word hw').append_word hlast

end

namespace CppHeader

def keyword : String :=
  "namespace "

/-- The line has no keyword with a space after it. -/
def Silent (l : Line) : Prop :=
  ¬ keyword.toList <:+: l.indented

instance (l : Line) : Decidable (Silent l) :=
  inferInstanceAs (Decidable ¬ keyword.toList <:+: l.indented)

theorem silent_of_quiet {l : Line} (h : Quiet l.text.toList) : Silent l := by
  intro hpart
  have hkeyword : Quiet keyword.toList := List.IsChain.infix (quiet_replicate_append (4 * l.depth) h) hpart
  revert hkeyword
  decide

theorem silent_opening : ∀ l ∈ opening, Silent l := by
  decide +kernel

/-! ### Lines of entries and forms -/

theorem quiet_registerLine {r : Tables.RegisterEntry} (h : Document.IsName r.name) :
    Quiet (registerLine r).text.toList := by
  have hnumeral : ' ' ∉ ("0x" ++ Text.hexUpper r.code.toNat).toList :=
    (isWord_of_read? (Integer.read?_hexUpper r.code)).not_mem (by decide)
  rw [String.toList_append, List.mem_append, not_or] at hnumeral
  simp only [registerLine, String.toList_append]
  exact quiet_words (by decide) h.not_mem_space hnumeral.2

theorem quiet_indexLine {e : Tables.IndexEntry} (h : Document.IsName e.name) : Quiet (indexLine e).text.toList := by
  have hindex : ' ' ∉ (Text.decimal e.index.toNat).toList := (isWord_decimal _).not_mem (by decide)
  simp only [indexLine, String.toList_append]
  exact quiet_words (by decide) h.not_mem_space hindex

theorem quiet_variantLine {v : Tables.VariantEntry} (h : v.opcode.Spelled) : Quiet (variantLine v).text.toList := by
  have htype : ' ' ∉ v.type.symbol.toList := by cases v.type <;> decide
  have hopcode : ' ' ∉ v.opcode.source.toList := h.isWord.not_mem (by decide)
  simp only [variantLine, String.toList_append]
  exact quiet_words (by decide) htype hopcode

theorem quiet_paramLines (kinds : List OperandKind) : ∀ l ∈ paramLines kinds, Quiet l.text.toList := by
  intro l hl
  rw [paramLines] at hl
  split at hl
  · cases hl
  · rw [List.mem_singleton.1 hl, String.toList_intercalate]
    refine quiet_intercalate fun w hw => ?_
    rw [List.map_map] at hw
    obtain ⟨k, -, rfl⟩ := List.mem_map.1 hw
    cases k <;> decide

theorem quiet_formLines {f : Tables.Form} (h : ∀ o ∈ f.opcodes, o.Spelled) :
    ∀ l ∈ formLines f, Quiet l.text.toList := by
  have hopcode : Quiet (f.opcode.source ++ ",").toList := by
    have hsource : ' ' ∉ f.opcode.source.toList := (h f.opcode List.mem_cons_self).isWord.not_mem (by decide)
    rw [String.toList_append]
    exact (quiet_of_not_mem hsource).append_word (by decide)
  have hflags : Quiet (f.flags.symbols ++ ",").toList := by
    obtain ⟨a, b⟩ := f.flags
    cases a <;> cases b <;> decide
  have hvariants : ∀ l ∈ f.variants.map variantLine, Quiet l.text.toList := by
    intro l hl
    obtain ⟨v, hv, rfl⟩ := List.mem_map.1 hl
    exact quiet_variantLine (h v.opcode (List.mem_cons_of_mem _ (List.mem_map_of_mem hv)))
  simp only [formLines, List.forall_mem_append, List.forall_mem_cons]
  exact ⟨⟨⟨⟨⟨by decide, hopcode, hflags, by decide⟩, quiet_paramLines f.params⟩, by decide⟩, hvariants⟩, by decide⟩

theorem quiet_instructionLines {fs : List Tables.Form} (h : ∀ f ∈ fs, ∀ o ∈ f.opcodes, o.Spelled) :
    ∀ l ∈ instructionLines fs, Quiet l.text.toList := by
  simp only [instructionLines, List.cons_append, List.forall_mem_cons, List.forall_mem_append]
  refine ⟨by decide, fun l hl => ?_, by decide⟩
  obtain ⟨f, hf, hl⟩ := List.mem_flatMap.1 hl
  exact quiet_formLines (h f hf) l hl

/-! ### The wrapper -/

/-- What opens the namespace. -/
def namespaceHead (n : String) : String :=
  "namespace " ++ n ++ " \x7b"

/-- What closes the namespace, with the end of its line. -/
def namespaceFoot (n : String) : String :=
  "\x7d // namespace " ++ n ++ "\n"

/-- The lines before the namespace. -/
def above (t : Tables) : List Line :=
  opening ++ t.registers.map registerLine ++ [stop, ⟨0, ""⟩]

/-- The lines in the namespace. -/
def inside (t : Tables) : List Line :=
  [⟨0, "const std::map<std::string, uint8_t> INSTR_NAMES \x7b"⟩] ++ t.index.map indexLine ++
    [stop, ⟨0, ""⟩, declarationLine t] ++ t.instructions.flatMap instructionLines ++ [stop, ⟨0, ""⟩]

def headLine (n : String) : Line :=
  ⟨0, namespaceHead n⟩

def footLine (n : String) : Line :=
  ⟨0, "\x7d // namespace " ++ n⟩

/-- The lines of a header that opens one namespace and closes another one. -/
def wrapped (t : Tables) (n m : String) : List Line :=
  above t ++ headLine n :: (inside t ++ [footLine m])

theorem lines_eq_wrapped (t : Tables) (n : String) : lines t n = wrapped t n n := by
  simp only [lines, wrapped, above, inside, opening, stop, headLine, namespaceHead, footLine, declarationLine,
    List.append_assoc, List.cons_append, List.nil_append]

theorem toList_text (t : Tables) (n : String) : (text t n).toList = (wrapped t n n).flatMap Line.chars := by
  rw [text, render, String.toList_ofList, lines_eq_wrapped]

theorem indented_headLine (n : String) :
    (headLine n).indented = keyword.toList ++ (n.toList ++ [' ', '\x7b']) := by
  simp [headLine, namespaceHead, keyword, Line.indented]

theorem indented_footLine (n : String) :
    (footLine n).indented = ['\x7d', ' ', '/', '/', ' '] ++ keyword.toList ++ n.toList := by
  simp [footLine, keyword, Line.indented]

theorem chars_headLine (n : String) : (headLine n).chars = (namespaceHead n).toList ++ ['\n'] := by
  simp [headLine, Line.chars]

theorem chars_footLine (n : String) : (footLine n).chars = (namespaceFoot n).toList := by
  simp [footLine, Line.chars, namespaceFoot]

theorem chars_wrapped_head (t : Tables) (n m : String) :
    (wrapped t n m).flatMap Line.chars = (above t).flatMap Line.chars ++
      ((namespaceHead n).toList ++ ('\n' :: (inside t ++ [footLine m]).flatMap Line.chars)) := by
  rw [wrapped, List.flatMap_append, List.flatMap_cons, chars_headLine, List.append_assoc _ ['\n'],
    List.singleton_append]

theorem chars_wrapped_foot (t : Tables) (n m : String) :
    (wrapped t n m).flatMap Line.chars =
      (above t ++ headLine n :: inside t).flatMap Line.chars ++ (namespaceFoot m).toList := by
  rw [← chars_footLine, ← List.flatMap_singleton Line.chars, ← List.flatMap_append, wrapped, List.append_assoc,
    List.cons_append]

section

variable {t : Tables}

theorem silent_lines (hnames : ∀ name ∈ t.names, Document.IsName name) (hopcodes : ∀ o ∈ t.opcodes, o.Spelled) :
    ∀ l ∈ above t ++ inside t, Silent l := by
  have hregisters : ∀ l ∈ t.registers.map registerLine, Silent l := by
    intro l hl
    obtain ⟨r, hr, rfl⟩ := List.mem_map.1 hl
    exact silent_of_quiet (quiet_registerLine (hnames _ (List.mem_append_left _ (List.mem_map_of_mem hr))))
  have hindex : ∀ l ∈ t.index.map indexLine, Silent l := by
    intro l hl
    obtain ⟨e, he, rfl⟩ := List.mem_map.1 hl
    exact silent_of_quiet (quiet_indexLine (hnames _ (List.mem_append_right _ (List.mem_map_of_mem he))))
  have hdeclaration : Silent (declarationLine t) := by
    have hcount : ' ' ∉ (Text.decimal t.instructions.length).toList := (isWord_decimal _).not_mem (by decide)
    refine silent_of_quiet ?_
    simp only [declarationLine, String.toList_append]
    have hbefore : Quiet ("const std::array<std::vector<InstrParamList>, ".toList) := by decide
    exact quiet_append_iff.2 ⟨hbefore.append_word hcount, by decide, fun _ => by decide⟩
  have hinstructions : ∀ l ∈ t.instructions.flatMap instructionLines, Silent l := by
    intro l hl
    obtain ⟨fs, hfs, hl⟩ := List.mem_flatMap.1 hl
    exact silent_of_quiet (quiet_instructionLines (fun f hf o ho => hopcodes o (Tables.mem_opcodes hfs hf ho)) l hl)
  have hends : Silent stop ∧ Silent ⟨0, ""⟩ ∧ ∀ l ∈ ([] : List Line), Silent l := by decide
  have hfirst : ∀ l ∈ [⟨0, "const std::map<std::string, uint8_t> INSTR_NAMES \x7b"⟩], Silent l := by decide +kernel
  simp only [above, inside, List.forall_mem_append, List.forall_mem_cons] at hfirst ⊢
  exact ⟨⟨⟨silent_opening, hregisters⟩, hends⟩, ⟨⟨⟨hfirst, hindex⟩, hends.1, hends.2.1, hdeclaration, by simp⟩,
    hinstructions⟩, hends⟩

variable {n m : String}

theorem unbroken_headLine (h : IsWord n.toList) : '\n' ∉ (headLine n).indented := by
  rw [indented_headLine]
  exact List.not_mem_append (by decide) (List.not_mem_append (h.not_mem (by decide)) (by decide))

theorem unbroken_footLine (h : IsWord n.toList) : '\n' ∉ (footLine n).indented := by
  rw [indented_footLine]
  exact List.not_mem_append (by decide) (h.not_mem (by decide))

/-- Only the line that opens the namespace has a bracket that opens. -/
theorem headLine_not_part (h : IsWord m.toList) : ¬ (headLine n).indented <:+: (footLine m).indented := by
  intro hpart
  have hbrace : '\x7b' ∉ (footLine m).indented := by
    rw [indented_footLine]
    exact List.not_mem_append (by decide) (h.not_mem (by decide))
  refine hbrace (hpart.subset ?_)
  simp [indented_headLine]

/-- Only the line that closes the namespace has a bracket that closes. -/
theorem footLine_not_part (h : IsWord n.toList) : ¬ (footLine m).indented <:+: (headLine n).indented := by
  intro hpart
  have hbrace : '\x7d' ∉ (headLine n).indented := by
    rw [indented_headLine]
    exact List.not_mem_append (by decide) (List.not_mem_append (h.not_mem (by decide)) (by decide))
  refine hbrace (hpart.subset ?_)
  simp [indented_footLine]

theorem occursOnce_head (ht : ∀ l ∈ above t ++ inside t, Silent l) (hn : IsWord n.toList) (hm : IsWord m.toList) :
    OccursOnce (namespaceHead n).toList ((wrapped t n m).flatMap Line.chars) := by
  have hkeyword : keyword.toList <:+: (headLine n).indented := by
    rw [indented_headLine]
    exact (List.prefix_append _ _).isInfix
  refine occursOnce_line (l := headLine n) (by simp [indented_headLine]) (unbroken_headLine hn) ?_
  rw [← List.append_assoc]
  refine List.forall_mem_append.2 ⟨fun l hl hpart => ht l hl (hkeyword.trans hpart), ?_⟩
  exact List.forall_mem_singleton.2 (headLine_not_part hm)

theorem occursOnce_foot (ht : ∀ l ∈ above t ++ inside t, Silent l) (hn : IsWord n.toList) (hm : IsWord m.toList) :
    OccursOnce (namespaceFoot m).toList ((wrapped t n m).flatMap Line.chars) := by
  have hkeyword : keyword.toList <:+: (footLine m).indented := by
    rw [indented_footLine]
    exact List.infix_append _ _ _
  have hlast : wrapped t n m = (above t ++ headLine n :: inside t) ++ footLine m :: [] := by
    rw [wrapped, List.append_assoc, List.cons_append]
  have hline : OccursOnce (footLine m).indented ((wrapped t n m).flatMap Line.chars) := by
    obtain ⟨habove, hinside⟩ := List.forall_mem_append.1 ht
    rw [hlast]
    refine occursOnce_line (by simp [indented_footLine]) (unbroken_footLine hm) ?_
    rw [List.append_nil]
    refine List.forall_mem_append.2 ⟨fun l hl hpart => habove l hl (hkeyword.trans hpart), ?_⟩
    exact List.forall_mem_cons.2 ⟨footLine_not_part hn, fun l hl hpart => hinside l hl (hkeyword.trans hpart)⟩
  have hfoot : (namespaceFoot m).toList = (footLine m).indented ++ ['\n'] := by rw [← chars_footLine]; rfl
  have hplace : (above t ++ headLine n :: inside t).flatMap Line.chars ++ (namespaceFoot m).toList <+:
      (wrapped t n m).flatMap Line.chars := ⟨[], by rw [chars_wrapped_foot, List.append_nil]⟩
  rw [hfoot] at hplace ⊢
  exact hline.append hplace

theorem replaceAll_head (ht : ∀ l ∈ above t ++ inside t, Silent l) (hn : IsWord n.toList) (hm : IsWord m.toList)
    (n' : String) :
    replaceAll (namespaceHead n).toList (namespaceHead n').toList ((wrapped t n m).flatMap Line.chars) =
      (wrapped t n' m).flatMap Line.chars := by
  have honce := occursOnce_head ht hn hm
  have hne : (namespaceHead n).toList ≠ [] := by simp [namespaceHead]
  rw [chars_wrapped_head] at honce ⊢
  rw [honce.replaceAll_eq hne, chars_wrapped_head]

theorem replaceAll_foot (ht : ∀ l ∈ above t ++ inside t, Silent l) (hn : IsWord n.toList) (hm : IsWord m.toList)
    (m' : String) :
    replaceAll (namespaceFoot m).toList (namespaceFoot m').toList ((wrapped t n m).flatMap Line.chars) =
      (wrapped t n m').flatMap Line.chars := by
  have honce := occursOnce_foot ht hn hm
  have hne : (namespaceFoot m).toList ≠ [] := by simp [namespaceFoot]
  have hlast : ∀ m, (wrapped t n m).flatMap Line.chars =
      (above t ++ headLine n :: inside t).flatMap Line.chars ++ ((namespaceFoot m).toList ++ []) := by
    intro m
    rw [chars_wrapped_foot, List.append_nil]
  rw [hlast] at honce ⊢
  rw [honce.replaceAll_eq hne, hlast]

end

/-- The namespace only changes the lines that wrap it.  Whatever names and opcodes a description has, and whatever
symbol is chosen, the text that opens the namespace and the one that closes it occur once in the header, which ends with
the latter; with those of the default namespace in their place, in either order, it is the header for the default
namespace. -/
theorem namespace_occurs_in_wrapper {s : List UInt8} {policy : VariantPolicy} {d : Description} {t : Tables}
    {n : String} (hload : Description.load s = .ok d) (hbuild : d.build policy = .ok t) (hn : Symbol.isSymbol n) :
    OccursOnce (namespaceHead n).toList (text t n).toList ∧
    OccursOnce (namespaceFoot n).toList (text t n).toList ∧ (namespaceFoot n).toList <:+ (text t n).toList ∧
    let head := replaceAll (namespaceHead n).toList (namespaceHead defaultNamespace).toList
    let foot := replaceAll (namespaceFoot n).toList (namespaceFoot defaultNamespace).toList
    foot (head (text t n).toList) = (text t defaultNamespace).toList ∧
      head (foot (text t n).toList) = (text t defaultNamespace).toList := by
  have hsilent := silent_lines (Description.isName_of_build hload hbuild) (Description.spelled_of_build hload hbuild)
  have hword := isWord_of_isSymbol hn
  have hdefault : IsWord defaultNamespace.toList := isWord_of_isSymbol (by decide)
  rw [toList_text, toList_text]
  refine ⟨occursOnce_head hsilent hword hword, occursOnce_foot hsilent hword hword, ?_, ?_, ?_⟩
  · rw [chars_wrapped_foot]
    exact List.suffix_append _ _
  · rw [replaceAll_head hsilent hword hword, replaceAll_foot hsilent hdefault hword]
  · rw [replaceAll_foot hsilent hword hword, replaceAll_head hsilent hword hdefault]

/-- The namespace, a register, an instruction and its opcode are all called as the keyword. -/
theorem namespace_occurs_in_wrapper_keyword :
    let s := Utf8.encode ("\x7b\"registers\": [\x7b\"name\": \"namespace\", \"bytecode\": 0\x7d], " ++
      "\"instructions\": [\x7b\"name\": \"namespace\", \"paramList\": [\x7b\"opcode\": \"namespace\", " ++
      "\"encodeType\": false, \"params\": [\"iReg\"], \"typeVariants\": []\x7d]\x7d]\x7d")
    ∃ d t, Description.load s = .ok d ∧ d.build .strict = .ok t ∧ t.names = ["namespace", "namespace"] ∧
      OccursOnce "namespace namespace \x7b".toList (text t "namespace").toList ∧
      OccursOnce "\x7d // namespace namespace\n".toList (text t "namespace").toList ∧
      replaceAll "\x7d // namespace namespace\n".toList "\x7d // namespace Asm\n".toList
        (replaceAll "namespace namespace \x7b".toList "namespace Asm \x7b".toList (text t "namespace").toList) =
          (text t "Asm").toList := by
  intro s
  let d : Description := ⟨[⟨"namespace", 0⟩], [⟨"namespace", [⟨.symbol "namespace", false, ["iReg"], []⟩]⟩]⟩
  let t : Tables :=
    ⟨[⟨"namespace", 0⟩], [⟨"namespace", 0⟩], [[⟨.symbol "namespace", ⟨false, false⟩, [.intReg], []⟩]]⟩
  have hload : Description.load s = .ok d := toOption_eq_some_iff.1 (by decide +kernel)
  have hbuild : d.build .strict = .ok t := rfl
  obtain ⟨hhead, hfoot, -, hrenamed, -⟩ := namespace_occurs_in_wrapper hload hbuild (n := "namespace") (by decide)
  exact ⟨d, t, hload, hbuild, rfl, hhead, hfoot, hrenamed⟩

end CppHeader

end OpcodeTables.Emit
