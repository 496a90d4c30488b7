import Mathlib.Data.List.Chain
import NestClient.Proofs.Extract.ParsedTypes

/-! A qualified type is the source of the type with its imported names replaced by references to their
modules, and the symbols of these references give the source back, with the names that the modules have
for them. -/

namespace NestClient

namespace TypeText

open TypeScript (reference)

variable {u module symbol : Text}

/-- A module's name of at least one character and without quotes is read back from a reference. -/
theorem isReference_of_unquoted (hne : module ≠ []) (hm : ∀ c ∈ module, isQuote c = false)
    (hs : Text.isName symbol = true) : IsReference (reference module symbol) module symbol := by
  refine ⟨[], '"', '"', [], ?_, by simp, by decide, hne, hm, by decide, by simp, hs⟩
  rw [reference_eq]
  rfl

theorem reference_append (module symbol longer : Text) :
    reference module (symbol ++ longer) = reference module symbol ++ longer :=
  (List.append_assoc _ symbol longer).symm

/-- What opens a reference does not begin in front of another one and end in it. -/
theorem importOpen_prefix_append {v s : Text} (hv : v ≠ []) (hs : ∀ c, s.head? = some c → c = 'i')
    (h : importOpen <+: v ++ s) : importOpen <+: v := by
  obtain ⟨more, hmore⟩ := h
  rcases List.append_eq_append_iff.1 hmore with ⟨tail, htail, -⟩ | ⟨tail, htail, hrest⟩
  · exact ⟨tail, htail.symm⟩
  · cases tail with
    | nil => exact ⟨[], by rw [htail, List.append_nil, List.append_nil]⟩
    | cons c tail =>
      obtain ⟨first, v, rfl⟩ := List.exists_cons_of_ne_nil hv
      obtain rfl := hs c (by rw [hrest]; rfl)
      have hmem : 'i' ∈ importOpen.tail := by
        rw [htail]
        simp
      exact absurd hmem (by decide)

/-- A text in which no reference begins is shown as it is. -/
theorem Resolver.shown_append (r : Resolver) {s : Text} (hu : ¬importOpen <:+: u)
    (hs : ∀ c, s.head? = some c → c = 'i') : r.shown (u ++ s) = u ++ r.shown s := by
  induction u with
  | nil => rfl
  | cons c u ih =>
    have hread : readReference? (c :: (u ++ s)) = none := by
      rw [Option.eq_none_iff_forall_ne_some]
      rintro ⟨module, symbol, after⟩ hread
      obtain ⟨written, ⟨_, _, _, _, rfl, -⟩, ht, -⟩ := readReference?_eq_some_iff.1 hread
      rw [List.append_assoc] at ht
      have hopen : importOpen <+: (c :: u) ++ s := ⟨_, ht.symm⟩
      exact hu (importOpen_prefix_append (List.cons_ne_nil c u) hs hopen).isInfix
    rw [List.cons_append, Resolver.shown, pieces_char hread]
    exact congrArg (c :: ·) (ih fun hin => hu (hin.trans (List.suffix_cons c u).isInfix))

theorem Resolver.shown_reference (r : Resolver) {after : Text} (hne : module ≠ [])
    (hm : ∀ c ∈ module, isQuote c = false) (hs : Text.isName symbol = true)
    (hshared : r.isShared module = true) (hafter : EndsName after) :
    r.shown (reference module symbol ++ after) = symbol ++ r.shown after := by
  rw [Resolver.shown, pieces_read (isReference_of_unquoted hne hm hs) hafter, List.flatMap_cons,
    Resolver.showPiece, if_pos hshared]
  rfl

end TypeText

namespace TypeScript

open TypeText (Resolver importOpen isQuote EndsName)
open Utf8 (encode)

/-- The piece with an imported name replaced by the name that its module has for it. -/
def TypePiece.rename (imports : List ImportDecl) (p : TypePiece) : Text :=
  match p.target? imports with
  | some (_, symbol) => symbol
  | none => p.source

/-- The type with every imported name replaced by the name that its module has for it. -/
def TypeSource.rename (imports : List ImportDecl) (t : TypeSource) : Text :=
  t.flatMap (TypePiece.rename imports)

/-- A reference to a symbol of a module is read and replaced: the module's name has a character and no
quotes, it is shared, and the symbol is a name. -/
structure Reference (r : Resolver) (module symbol : Text) : Prop where
  ne_nil : module ≠ []
  unquoted : ∀ c ∈ module, isQuote c = false
  shared : r.isShared module = true
  name : Text.isName symbol = true

/-- A qualified type can be read: every name is replaced by a reference that is, and between these
nothing opens another one. -/
structure TypeSource.Readable (imports : List ImportDecl) (r : Resolver) (t : TypeSource) : Prop where
  references : ∀ p ∈ t, ∀ module symbol, p.target? imports = some (module, symbol) →
    Reference r module symbol
  alone : ∀ run, run <:+: t → (∀ p ∈ run, p.target? imports = none) →
    ¬importOpen <:+: TypeSource.text run

variable {imports : List ImportDecl} {r : Resolver} {t : TypeSource} {file : Text} {node : TypeNode}

theorem TypePiece.isName_of_target? {p : TypePiece} {target : Text × Text}
    (h : p.target? imports = some target) : p.isName = true := by
  cases p with
  | plain written => simp [target?] at h
  | name _ | qualified _ _ _ => rfl

theorem TypeSource.Readable.of_infix {s : TypeSource} (h : t.Readable imports r) (hs : s <:+: t) :
    s.Readable imports r where
  references := fun p hp => h.references p (hs.subset hp)
  alone := fun run hrun => h.alone run (hrun.trans hs)

/-- Names are apart where the piece behind each of them has such a character. -/
theorem TypeSource.namesApart_of_isChain
    (h : t.IsChain fun p q => p.isName = true →
      q.isName = false ∧ q.source.any (fun c => !isNameChar c) = true) : t.NamesApart := by
  intro p between q hin hp hq
  have hchain := h.infix hin
  cases between with
  | nil =>
    have hplain := ((List.isChain_cons_cons.1 hchain).1 hp).1
    rw [hq] at hplain
    cases hplain
  | cons b between =>
    obtain ⟨c, hc, hstop⟩ := List.any_eq_true.1 ((List.isChain_cons_cons.1 hchain).1 hp).2
    exact ⟨c, List.mem_append_left _ hc, by simpa using hstop⟩

/-- A type whose source opens no reference is readable if its targets are. -/
theorem TypeSource.readable_of_targets (h : ¬importOpen <:+: t.text)
    (htargets : ∀ target ∈ t.filterMap (TypePiece.target? imports), Reference r target.1 target.2) :
    t.Readable imports r where
  references p hp module symbol htarget := htargets _ (List.mem_filterMap.2 ⟨p, hp, htarget⟩)
  alone := by
    rintro run ⟨before, after, rfl⟩ - hin
    refine h (hin.trans ⟨TypeSource.text before, TypeSource.text after, ?_⟩)
    rw [text_append, text_append]

/-! ## Runs of pieces that stay -/

/-- The type begins with pieces that stay, and behind them stands a name that is replaced, if
anything. -/
theorem TypeSource.exists_run (imports : List ImportDecl) (t : TypeSource) :
    ∃ run more, t = run ++ more ∧ (∀ p ∈ run, p.target? imports = none) ∧
      (more = [] ∨ ∃ p target rest, more = p :: rest ∧ p.target? imports = some target) := by
  induction t with
  | nil => exact ⟨[], [], rfl, by simp, .inl rfl⟩
  | cons p t ih =>
    cases htarget : p.target? imports with
    | some target => exact ⟨[], p :: t, rfl, by simp, .inr ⟨p, target, t, rfl, htarget⟩⟩
    | none =>
      obtain ⟨run, more, rfl, hrun, hmore⟩ := ih
      exact ⟨p :: run, more, rfl, List.forall_mem_cons.2 ⟨htarget, hrun⟩, hmore⟩

theorem TypeSource.qualify_run {run : TypeSource} (h : ∀ p ∈ run, p.target? imports = none)
    (more : TypeSource) : qualify imports (run ++ more) = text run ++ qualify imports more := by
  rw [qualify, List.flatMap_append, text,
    List.flatMap_congr fun p hp => TypePiece.qualify_eq_source (h p hp)]
  rfl

theorem TypeSource.qualify_cons (p : TypePiece) (t : TypeSource) :
    qualify imports (p :: t) = p.qualify imports ++ qualify imports t := List.flatMap_cons

theorem TypeSource.rename_cons (p : TypePiece) (t : TypeSource) :
    rename imports (p :: t) = p.rename imports ++ rename imports t := List.flatMap_cons

theorem TypePiece.rename_eq_source {p : TypePiece} (h : p.target? imports = none) :
    p.rename imports = p.source := by
  rw [rename, h]

theorem TypeSource.rename_run {run : TypeSource} (h : ∀ p ∈ run, p.target? imports = none)
    (more : TypeSource) : rename imports (run ++ more) = text run ++ rename imports more := by
  rw [rename, List.flatMap_append, text,
    List.flatMap_congr fun p hp => TypePiece.rename_eq_source (h p hp)]
  rfl

/-- The end of a run can be read as text in front of what follows. -/
theorem TypeSource.Readable.behind (run : TypeSource) {more : TypeSource}
    (h : Readable imports r (run ++ more))
    (hrun : ∀ p ∈ run, p.target? imports = none) {front : Text} (hfront : front <:+ text run) :
    Readable imports r (.plain front :: more) where
  references := by
    intro p hp module symbol htarget
    rcases List.mem_cons.1 hp with rfl | hp
    · cases htarget
    · exact h.references p (List.mem_append_right _ hp) module symbol htarget
  alone := by
    intro stay hstay hplain hin
    rcases List.infix_cons_iff.1 hstay with hlead | hstay
    · rcases List.prefix_cons_iff.1 hlead with rfl | ⟨stay, rfl, ⟨rest, rfl⟩⟩
      · exact absurd hin (by decide)
      · have hplain' : ∀ p ∈ run ++ stay, p.target? imports = none := fun p hp =>
          (List.mem_append.1 hp).elim (hrun p) fun hp => hplain p (List.mem_cons_of_mem _ hp)
        refine h.alone (run ++ stay) ⟨[], rest, by simp⟩ hplain' ?_
        obtain ⟨lead, hlead⟩ := hfront
        have htext : text (run ++ stay) = lead ++ text (.plain front :: stay) := by
          rw [text_append, ← hlead, List.append_assoc]
          rfl
        rw [htext]
        exact hin.trans (List.suffix_append _ _).isInfix
    · exact h.alone stay (hstay.trans (List.suffix_append _ _).isInfix) hplain hin

/-- A text begins with the characters of a name and goes on with one that no name has, if there is
any. -/
theorem exists_nameChars (t : Text) :
    ∃ name rest, t = name ++ rest ∧ (∀ c ∈ name, isNameChar c = true) ∧ EndsName rest :=
  ⟨t.takeWhile isNameChar, t.dropWhile isNameChar, List.takeWhile_append_dropWhile.symm,
    fun _ => List.mem_takeWhile_imp, fun _ => Text.head?_dropWhile⟩

/-! ## What the resolver reads -/

/-- Behind a name that is replaced, characters of a name make the symbol longer, up to one that no name
has or to the end of the type. -/
theorem exists_symbol_end (imports : List ImportDecl) {run more : TypeSource}
    (hmore : more = [] ∨ ∃ c ∈ TypeSource.text run, isNameChar c = false) :
    ∃ longer front, TypeSource.text run = longer ++ front ∧ (∀ c ∈ longer, isNameChar c = true) ∧
      EndsName (front ++ TypeSource.qualify imports more) := by
  obtain ⟨longer, front, htext, hlonger, hends⟩ := exists_nameChars (TypeSource.text run)
  refine ⟨longer, front, htext, hlonger, ?_⟩
  rcases hmore with rfl | ⟨c, hc, hstop⟩
  · simpa [TypeSource.qualify] using hends
  · cases front with
    | nil =>
      rw [htext, List.append_nil] at hc
      rw [hlonger c hc] at hstop
      cases hstop
    | cons d front => exact hends

/-- The resolver reads text in front of a type as it stands, if this opens no reference. -/
theorem shown_qualify_behind (front : Text) (h : TypeSource.Readable imports r (.plain front :: t))
    (hapart : t.NamesApart) :
    r.shown (front ++ t.qualify imports) = front ++ t.rename imports := by
  induction hn : t.length using Nat.strongRecOn generalizing t front with
  | ind n ih =>
    obtain ⟨run, more, rfl, hrun, hmore⟩ := t.exists_run imports
    have hopen : ¬importOpen <:+: front ++ TypeSource.text run :=
      h.alone (.plain front :: run) ⟨[], more, rfl⟩ (List.forall_mem_cons.2 ⟨rfl, hrun⟩)
    rw [TypeSource.qualify_run hrun, TypeSource.rename_run hrun, ← List.append_assoc, ← List.append_assoc]
    rcases hmore with rfl | ⟨p, ⟨module, symbol⟩, rest, rfl, htarget⟩
    · exact r.shown_append (s := []) hopen (by simp)
    have href := h.references p (by simp) module symbol htarget
    -- the symbol may go on into the pieces behind it, but not into another name
    obtain ⟨run', more', rfl, hrun', hmore'⟩ := TypeSource.exists_run imports rest
    have hstop : more' = [] ∨ ∃ c ∈ TypeSource.text run', isNameChar c = false := by
      rcases hmore' with rfl | ⟨q, target, rest, rfl, htarget'⟩
      · exact .inl rfl
      · exact .inr (hapart p run' q ⟨run, rest, by simp⟩ (TypePiece.isName_of_target? htarget)
          (TypePiece.isName_of_target? htarget'))
    obtain ⟨longer, front', htext, hlonger, hends⟩ := exists_symbol_end imports hstop
    have hqualified : TypeSource.qualify imports (p :: (run' ++ more'))
        = reference module (symbol ++ longer) ++ (front' ++ TypeSource.qualify imports more') := by
      rw [TypeSource.qualify_cons, TypeSource.qualify_run hrun', htext, TypePiece.qualify_eq htarget,
        TypeText.reference_append, List.append_assoc, List.append_assoc]
    have hrenamed : TypeSource.rename imports (p :: (run' ++ more'))
        = symbol ++ longer ++ (front' ++ TypeSource.rename imports more') := by
      rw [TypeSource.rename_cons, TypeSource.rename_run hrun', htext, TypePiece.rename, htarget]
      simp only [List.append_assoc]
    have hbehind : r.shown (front' ++ TypeSource.qualify imports more')
        = front' ++ TypeSource.rename imports more' := by
      have hbelow : more'.length < n := by
        rw [← hn]
        simp only [List.length_append, List.length_cons]
        omega
      have hread' : TypeSource.Readable imports r (run' ++ more') :=
        h.of_infix ⟨.plain front :: (run ++ [p]), [], by simp⟩
      exact ih more'.length hbelow front' (hread'.behind run' hrun' ⟨longer, htext.symm⟩)
        (hapart.of_infix ⟨run ++ p :: run', [], by simp⟩) rfl
    have hname : Text.isName (symbol ++ longer) = true := Text.isName_append href.name hlonger
    have hhead : ∀ c, (reference module (symbol ++ longer)
        ++ (front' ++ TypeSource.qualify imports more')).head? = some c → c = 'i' := by
      rintro c ⟨⟩
      rfl
    have hread := r.shown_reference href.ne_nil href.unquoted hname href.shared hends
    rw [hqualified, hrenamed, r.shown_append hopen hhead, hread, hbehind]

/-- What the resolver makes of a qualified type is the source with the names that the modules have. -/
theorem shown_qualify (h : t.Readable imports r) (hapart : t.NamesApart) :
    r.shown (t.qualify imports) = t.rename imports :=
  shown_qualify_behind [] (TypeSource.Readable.behind [] h (by simp) List.suffix_rfl) hapart

/-! ## The qualified type of a tree -/

/-- The type is qualified by putting references in the places of its names, and the resolver undoes
this. -/
structure Qualified (imports : List ImportDecl) (file : Text) (node : TypeNode) (t : TypeSource) :
    Prop where
  text : qualifiedType imports (encode file) node = .ok (t.qualify imports)
  pieces : t.qualify imports = t.flatMap fun p =>
    match p.target? imports with
    | some (module, symbol) => reference module symbol
    | none => p.source
  undone : ∀ r : Resolver, t.Readable imports r → t.NamesApart →
    r.shown (t.qualify imports) = t.rename imports

/-- A type that is read from a source is a part of it, with references in the places of its names, and the
resolver undoes this. -/
structure QualifiedIn (imports : List ImportDecl) (source : Text) (t : TypeSource) : Prop where
  text : t.text <:+: source
  pieces : t.qualify imports = t.flatMap fun p =>
    match p.target? imports with
    | some (module, symbol) => reference module symbol
    | none => p.source
  undone : ∀ r : Resolver, t.Readable imports r → r.shown (t.qualify imports) = t.rename imports

theorem TypeSource.qualify_eq (imports : List ImportDecl) (t : TypeSource) :
    t.qualify imports = t.flatMap fun p =>
      match p.target? imports with
      | some (module, symbol) => reference module symbol
      | none => p.source := by
  refine List.flatMap_congr fun p _ => ?_
  cases htarget : p.target? imports with
  | none => exact TypePiece.qualify_eq_source htarget
  | some target => exact TypePiece.qualify_eq htarget

/-- A type in a file is qualified in its bytes as in its pieces: the source of its tree can be cut at the
names of the tree, and whatever the cut, if only no name is empty, what is put together is the cut with
the references in the places of the names, of which the resolver makes the symbols. The types that are
read from a source are qualified so, and their names are always apart. -/
theorem qualifiedType_undone :
    (∀ (imports : List ImportDecl) (file : Text) (node : TypeNode), node.Placed file →
      (∃ t, node.Cut file t ∧ Qualified imports file node t) ∧
        ((∀ n ∈ node.names, n.span.start < n.span.stop) →
          ∀ t, node.Cut file t → Qualified imports file node t)) ∧
    ∀ (imports : List ImportDecl) (source : Text) (statements : List Statement),
      parse source = .ok statements →
        ∀ t ∈ statements.flatMap Statement.types, QualifiedIn imports source t := by
  refine ⟨fun imports file node h => ⟨?_, fun hwritten t hcut => ?_⟩,
    fun imports source statements hparse t ht => ?_⟩
  · obtain ⟨t, hcut, hordered⟩ := h.exists_cut imports
    exact ⟨t, hcut, qualifiedType_eq hcut hordered, t.qualify_eq imports, fun r => shown_qualify⟩
  · exact ⟨qualifiedType_of_cut hcut hwritten, t.qualify_eq imports, fun r => shown_qualify⟩
  · have hstands := parse_types hparse t ht
    exact ⟨hstands.text, t.qualify_eq imports, fun r hread => shown_qualify hread hstands.apart⟩

/-- A name under another name, a literal that is not ASCII, and a name in a namespace, in the type of a
parameter. -/
def boxFile : Text := "(é: Box<M | 'é' | t.F>)".toList

def boxNode : TypeNode :=
  .other ⟨5, 24⟩ [.name (.name ⟨5, 8⟩), .other ⟨8, 24⟩ [.name (.name ⟨9, 10⟩),
    .other ⟨13, 17⟩ [], .name (.qualified ⟨20, 23⟩ ⟨20, 21⟩ ⟨22, 23⟩)]]

def boxSource : TypeSource :=
  [.name "Box".toList, .plain "<".toList, .name "M".toList, .plain " | 'é' | ".toList,
    .qualified "t".toList "F".toList "t.F".toList, .plain ">".toList]

def boxImports : List ImportDecl :=
  [{ specifier := "@x/types".toList, named := [("User".toList, "M".toList)] },
    { specifier := "@x/types".toList, namespaceName := some "t".toList }]

/-- The types of a shared module. -/
def boxResolver : Resolver := { isShared := (· == "@x/types".toList) }

theorem reference_box {symbol : Text} (h : Text.isName symbol = true) :
    Reference boxResolver "@x/types".toList symbol := by
  have hplain : ∀ c ∈ "@x/types".toList, (!isQuote c) = true := List.all_eq_true.1 (by decide)
  exact ⟨by decide, fun c hc => by simpa using hplain c hc, by decide, h⟩

/-- A class with such a type for a result. -/
def boxClass : Text := "class A { m(): Box<t.F> { } }".toList

def boxResult : TypeSource :=
  [.plain [], .name "Box".toList, .plain [], .plain "<".toList, .plain [],
    .qualified "t".toList "F".toList "t.F".toList, .plain [], .plain ">".toList]

theorem parse_boxClass : ∃ statements, parse boxClass = .ok statements ∧
    boxResult ∈ statements.flatMap Statement.types := by
  have htypes : (parse boxClass).toOption.map (·.flatMap Statement.types) = some [boxResult] := by
    decide +kernel
  cases hparse : parse boxClass with
  | error line =>
    rw [hparse] at htypes
    cases htypes
  | ok statements =>
    rw [hparse] at htypes
    have htypes : statements.flatMap Statement.types = [boxResult] := Option.some.inj htypes
    exact ⟨statements, rfl, by rw [htypes]; exact List.mem_singleton_self _⟩

theorem qualifiedType_undone_box : boxNode.Placed boxFile ∧
    (∀ n ∈ boxNode.names, n.span.start < n.span.stop) ∧ boxNode.Cut boxFile boxSource ∧
    boxSource.Readable boxImports boxResolver ∧ boxSource.NamesApart ∧
    qualifiedType boxImports (encode boxFile) boxNode = .ok
      "Box<import(\"@x/types\").User | 'é' | import(\"@x/types\").F>".toList ∧
    boxResolver.shown "Box<import(\"@x/types\").User | 'é' | import(\"@x/types\").F>".toList
      = "Box<User | 'é' | F>".toList ∧
    ∃ statements, parse boxClass = .ok statements ∧ boxResult ∈ statements.flatMap Statement.types ∧
      boxResult.Readable boxImports boxResolver ∧
      boxResolver.shown "Box<import(\"@x/types\").F>".toList = "Box<F>".toList := by
  have hwhole : Span.Holds boxFile ⟨5, 24⟩ boxSource.text :=
    ⟨"(é: ".toList, ")".toList, by decide, by decide, by decide⟩
  have hbox : Span.Holds boxFile ⟨5, 8⟩ "Box".toList :=
    ⟨"(é: ".toList, "<M | 'é' | t.F>)".toList, by decide, by decide, by decide⟩
  have harguments : Span.Holds boxFile ⟨8, 24⟩ "<M | 'é' | t.F>".toList :=
    ⟨"(é: Box".toList, ")".toList, by decide, by decide, by decide⟩
  have hmember : Span.Holds boxFile ⟨9, 10⟩ "M".toList :=
    ⟨"(é: Box<".toList, " | 'é' | t.F>)".toList, by decide, by decide, by decide⟩
  have hquoted : Span.Holds boxFile ⟨13, 17⟩ "'é'".toList :=
    ⟨"(é: Box<M | ".toList, " | t.F>)".toList, by decide, by decide, by decide⟩
  have hfilter : NameNode.Reads boxFile (.qualified ⟨20, 23⟩ ⟨20, 21⟩ ⟨22, 23⟩)
      (⟨20, 23⟩, .qualified "t".toList "F".toList "t.F".toList) :=
    .qualified ⟨"(é: Box<M | 'é' | ".toList, ">)".toList, by decide, by decide, by decide⟩
      ⟨"(é: Box<M | 'é' | ".toList, ".F>)".toList, by decide, by decide, by decide⟩
      ⟨"(é: Box<M | 'é' | t.".toList, ">)".toList, by decide, by decide, by decide⟩
  have hplaced : boxNode.Placed boxFile := by
    refine .other ⟨_, hwhole⟩ (by decide) (by decide) ?_
    simp only [List.forall_mem_cons]
    refine ⟨.name ⟨_, .name hbox⟩, .other ⟨_, harguments⟩ (by decide) (by decide) ?_, by simp⟩
    simp only [List.forall_mem_cons]
    exact ⟨.name ⟨_, .name hmember⟩, .other ⟨_, hquoted⟩ (by simp) .nil (by simp),
      .name ⟨_, hfilter⟩, by simp⟩
  have hnames : boxNode.names
      = [.name ⟨5, 8⟩, .name ⟨9, 10⟩, .qualified ⟨20, 23⟩ ⟨20, 21⟩ ⟨22, 23⟩] := by
    simp [boxNode, TypeNode.names]
  have hcut : boxNode.Cut boxFile boxSource := by
    refine ⟨hwhole, _, ?_, .refl _⟩
    rw [hnames]
    exact .cons (.name hbox) (.cons (.name hmember) (.cons hfilter .nil))
  have hwritten : ∀ n ∈ boxNode.names, n.span.start < n.span.stop := by
    rw [hnames]
    decide
  have hreadable : boxSource.Readable boxImports boxResolver := by
    have htargets : boxSource.filterMap (TypePiece.target? boxImports)
        = [("@x/types".toList, "User".toList), ("@x/types".toList, "F".toList)] := by decide +kernel
    refine TypeSource.readable_of_targets (by decide) ?_
    rw [htargets]
    simp only [List.forall_mem_cons]
    exact ⟨reference_box (by decide), reference_box (by decide), by simp⟩
  have hapart : boxSource.NamesApart := TypeSource.namesApart_of_isChain (by decide +kernel)
  have hqualify : boxSource.qualify boxImports
      = "Box<import(\"@x/types\").User | 'é' | import(\"@x/types\").F>".toList := by decide +kernel
  have hrename : boxSource.rename boxImports = "Box<User | 'é' | F>".toList := by decide +kernel
  have hqualified := (qualifiedType_undone.1 boxImports boxFile boxNode hplaced).2 hwritten boxSource hcut
  obtain ⟨statements, hparse, hresult⟩ := parse_boxClass
  have hresultReadable : boxResult.Readable boxImports boxResolver := by
    have htargets : boxResult.filterMap (TypePiece.target? boxImports)
        = [("@x/types".toList, "F".toList)] := by decide +kernel
    refine TypeSource.readable_of_targets (by decide) ?_
    rw [htargets]
    simp only [List.forall_mem_cons]
    exact ⟨reference_box (by decide), by simp⟩
  have hread := qualifiedType_undone.2 boxImports boxClass statements hparse boxResult hresult
  refine ⟨hplaced, hwritten, hcut, hreadable, hapart, ?_, ?_, statements, hparse, hresult,
    hresultReadable, ?_⟩
  · rw [← hqualify]
    exact hqualified.text
  · rw [← hqualify, ← hrename]
    exact hqualified.undone _ hreadable hapart
  · have hresultQualify : boxResult.qualify boxImports = "Box<import(\"@x/types\").F>".toList := by
      decide +kernel
    have hresultRename : boxResult.rename boxImports = "Box<F>".toList := by decide +kernel
    rw [← hresultQualify, ← hresultRename]
    exact hread.undone _ hresultReadable

/-- A reference to a module without a name is not read, and of two names that touch each other the first
one's symbol takes up the start of the second one's reference. -/
theorem qualifiedType_not_undone :
    let r : Resolver := { isShared := fun _ => true }
    let unnamed : List ImportDecl := [{ specifier := [], named := [("Foo".toList, "Foo".toList)] }]
    let lone : TypeNode := .name (.name ⟨0, 3⟩)
    let named : List ImportDecl := [{
      specifier := "m".toList, named := [("Foo".toList, "Foo".toList), ("Bar".toList, "Bar".toList)] }]
    let touching : TypeNode := .other ⟨0, 6⟩ [.name (.name ⟨0, 3⟩), .name (.name ⟨3, 6⟩)]
    (∀ i ∈ unnamed ++ named, i.specifier.any isQuote = false) ∧
    (∀ i ∈ unnamed ++ named, ∀ n ∈ i.named, Text.isName n.1 = true) ∧
    ¬importOpen <:+: "FooBar".toList ∧
    (lone.Placed "Foo".toList ∧
      qualifiedType unnamed (encode "Foo".toList) lone = .ok "import(\"\").Foo".toList ∧
      r.shown "import(\"\").Foo".toList = "import(\"\").Foo".toList) ∧
    touching.Placed "FooBar".toList ∧
    qualifiedType named (encode "FooBar".toList) touching
      = .ok "import(\"m\").Fooimport(\"m\").Bar".toList ∧
    r.shown "import(\"m\").Fooimport(\"m\").Bar".toList = "Fooimport(\"m\").Bar".toList := by
  intro r unnamed lone named touching
  have hlone : Span.Holds "Foo".toList ⟨0, 3⟩ "Foo".toList := ⟨[], [], by decide, by decide, by decide⟩
  have hwhole : Span.Holds "FooBar".toList ⟨0, 6⟩ "FooBar".toList :=
    ⟨[], [], by decide, by decide, by decide⟩
  have hfirst : Span.Holds "FooBar".toList ⟨0, 3⟩ "Foo".toList :=
    ⟨[], "Bar".toList, by decide, by decide, by decide⟩
  have hsecond : Span.Holds "FooBar".toList ⟨3, 6⟩ "Bar".toList :=
    ⟨"Foo".toList, [], by decide, by decide, by decide⟩
  have hloneNames : lone.names = [.name ⟨0, 3⟩] := by simp [lone, TypeNode.names]
  have htouchingNames : touching.names = [.name ⟨0, 3⟩, .name ⟨3, 6⟩] := by
    simp [touching, TypeNode.names]
  have hloneCut : lone.Cut "Foo".toList [.name "Foo".toList] := by
    refine ⟨hlone, _, ?_, .refl _⟩
    rw [hloneNames]
    exact .cons (.name hlone) .nil
  have htouchingCut :
      touching.Cut "FooBar".toList [.name "Foo".toList, .name "Bar".toList] := by
    refine ⟨hwhole, _, ?_, .refl _⟩
    rw [htouchingNames]
    exact .cons (.name hfirst) (.cons (.name hsecond) .nil)
  refine ⟨by decide, by decide, by decide, ⟨.name ⟨_, .name hlone⟩, ?_, by decide +kernel⟩, ?_, ?_,
    by decide +kernel⟩
  · exact qualifiedType_of_cut hloneCut (by rw [hloneNames]; decide)
  · refine .other ⟨_, hwhole⟩ (by decide) (by decide) ?_
    simp only [List.forall_mem_cons]
    exact ⟨.name ⟨_, .name hfirst⟩, .name ⟨_, .name hsecond⟩, by simp⟩
  · exact qualifiedType_of_cut htouchingCut (by rw [htouchingNames]; decide)

end TypeScript

end NestClient
