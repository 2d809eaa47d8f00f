import SlotLang.Proofs.Isolation
import SlotLang.Proofs.Legibility

/-!
# The text of a listing determines the listing

The header of a listing names the variables of the program, with the indices and members that a
variable consists of, and the external names.  These names are made of words, indices, brackets and
dots, so the header can be read as well as the code behind it.  Parameters may be anything here: they
are declared inside of procedures, and a procedure leaves nothing in the scope of the program but its
own name.

So two listings with the same text are the same list of instructions, whatever is wrong with the
programs that they come from.
-/

namespace SlotLang

open Lowering Aggregate

/-! ## Paths -/

theorem unbroken_join {texts : List String} (h : ∀ text ∈ texts, Unbroken text) :
    Unbroken (String.join texts) := by
  intro c hc
  rw [String.toList_join, List.mem_flatMap] at hc
  obtain ⟨text, htext, hc⟩ := hc
  exact h text htext c hc

theorem unbroken_of_mem_allElements {base : String} (hbase : Unbroken base) {bounds : List Nat}
    {element : String} (h : element ∈ allElements base bounds) : Unbroken element := by
  rw [allElements_eq] at h
  obtain ⟨indices, -, rfl⟩ := List.mem_map.mp h
  refine hbase.append (unbroken_join fun text htext => ?_)
  obtain ⟨index, -, rfl⟩ := List.mem_map.mp htext
  exact (Unbroken.append (by decide) (unbroken_toString index)).append (by decide)

/-- The paths of all members can be read. -/
def Aggregate.StructTable.Unbroken (table : StructTable) : Prop :=
  ∀ d ∈ table.defs, ∀ m ∈ d.members, SlotLang.Unbroken m.path

theorem Component.members_unbroken {structs : StructTable} (h : structs.Unbroken) {c : Component}
    (hc : c.Proper) : ∀ m ∈ c.members structs, Unbroken m.path := by
  have helement {element : String} (h : element ∈ allElements c.name c.bounds) : Unbroken element :=
    unbroken_of_mem_allElements hc.name.unbroken h
  intro m hm
  unfold Component.members DeclaredTy.members at hm
  split at hm
  next =>
    obtain ⟨element, hmem, rfl⟩ := List.mem_map.mp hm
    exact helement hmem
  next =>
    split at hm
    next d hd =>
      obtain ⟨element, hmem, hm⟩ := List.mem_flatMap.mp hm
      obtain ⟨below, hbelow, rfl⟩ := List.mem_map.mp hm
      have hpath := h d (List.mem_of_find?_eq_some hd) below hbelow
      exact ((helement hmem).append (by decide)).append hpath
    next => simp at hm

theorem Layout.build_unbroken {structs : StructTable} (h : structs.Unbroken) {layout : Layout}
    (hlayout : ∀ c ∈ layout.components, c.Proper) :
    ∀ m ∈ (layout.build structs).members, Unbroken m.path := by
  have hfold : ∀ (components : List Component) (d : StructDef), (∀ c ∈ components, c.Proper) →
      (∀ m ∈ d.members, Unbroken m.path) →
      ∀ m ∈ (components.foldl (StructDef.extend structs) d).members, Unbroken m.path := by
    intro components
    induction components with
    | nil => exact fun _ _ hd => hd
    | cons c components ih =>
      intro d hproper hd
      obtain ⟨hc, hmore⟩ := List.forall_mem_cons.mp hproper
      refine ih _ hmore ?_
      unfold StructDef.extend
      split
      · exact hd
      · exact List.forall_mem_append.mpr ⟨hd, c.members_unbroken h hc⟩
  exact hfold layout.components _ hlayout (by simp [StructDef.new])

/-! ## Outside of procedures -/

/-- If it is a variable, its name can be read. -/
def Symbol.Listable (s : Symbol) : Prop := s.kind = .var → Unbroken s.name

/-- A landmark that can stand outside of procedures, other than a procedure. -/
def Landmark.IsOutside : Landmark → Prop
  | .refer _ | .constant _ _ | .declare _ | .define _ => True
  | .external name _ _ => IsWord name
  | _ => False

namespace Stage

/-- What is declared here can be listed. -/
structure Listable (s : Stage) : Prop where
  ne_nil : s.scopes.scopes ≠ []
  symbols : s.scopes.Every Symbol.Listable
  structs : s.structs.Unbroken

variable {s : Stage} {l : Landmark} {landmarks : List Landmark}

theorem step_unbroken (h : s.structs.Unbroken) (hl : l.Proper) : (s.step l).structs.Unbroken := by
  cases l with
  | define layout =>
    dsimp only [step]
    unfold StructTable.define
    split
    · exact h
    · exact List.forall_mem_cons.mpr ⟨layout.build_unbroken h hl, h⟩
  | declare c =>
    dsimp only [step]
    split <;> exact h
  | _ => exact h

theorem run_unbroken (h : s.structs.Unbroken) (hproper : AllProper landmarks) :
    (s.run landmarks).structs.Unbroken := by
  induction landmarks generalizing s with
  | nil => exact h
  | cons l landmarks ih =>
    obtain ⟨hl, hmore⟩ := List.forall_mem_cons.mp hproper
    exact ih (step_unbroken h hl) hmore

theorem Listable.declareAll (h : s.Listable) {members : List Member}
    (hmembers : ∀ m ∈ members, m.kind = .var → Unbroken m.path) :
    Listable { s with scopes := s.scopes.declareAll members } := by
  obtain ⟨created, hadds, hcreated⟩ := ScopeStack.declareAll_adds h.ne_nil members
  refine ⟨hadds.ne_nil, h.symbols.adds hadds fun t ht => ?_, h.structs⟩
  exact hmembers t.member (hcreated ▸ List.mem_map.mpr ⟨t, ht, rfl⟩)

theorem Listable.step (h : s.Listable) (hl : l.Proper) (houtside : l.IsOutside) :
    (s.step l).Listable := by
  have hstructs := step_unbroken h.structs hl
  cases l with
  | refer r => exact h
  | constant name ty =>
    exact @Listable.declareAll s h [⟨name, ty, .const⟩] (by simp)
  | declare c =>
    dsimp only [Stage.step]
    split
    · exact h
    · exact h.declareAll fun m hm _ => c.members_unbroken h.structs hl m hm
  | define layout => exact ⟨h.ne_nil, h.symbols, hstructs⟩
  | external name kind ty =>
    exact ⟨h.ne_nil, h.symbols.declareExternal fun _ => IsWord.unbroken houtside, h.structs⟩
  | _ => exact houtside.elim

theorem Listable.run (h : s.Listable) (hproper : AllProper landmarks)
    (houtside : ∀ l ∈ landmarks, l.IsOutside) : (s.run landmarks).Listable := by
  induction landmarks generalizing s with
  | nil => exact h
  | cons l landmarks ih =>
    obtain ⟨hl, hmore⟩ := List.forall_mem_cons.mp hproper
    obtain ⟨hfirst, hothers⟩ := List.forall_mem_cons.mp houtside
    exact ih (h.step hl hfirst) hmore hothers

end Stage

theorem Declaration.landmarks_outside (d : Declaration) : ∀ l ∈ d.landmarks, l.IsOutside := by
  intro l hl
  cases d with
  | const keyword entries semicolon =>
    obtain ⟨entry, -, hl⟩ := List.mem_flatMap.mp hl
    unfold ConstEntry.landmarks at hl
    split at hl
    · rcases List.mem_cons.mp hl with rfl | hl
      · trivial
      · obtain ⟨r, -, rfl⟩ := List.mem_map.mp hl
        trivial
    · simp at hl
  | vars spec declarators semicolon =>
    obtain ⟨declarator, -, hl⟩ := List.mem_flatMap.mp hl
    unfold Declarator.landmarks at hl
    split at hl
    · rw [List.mem_singleton.mp hl]
      trivial
    · simp at hl
  | structDef keyword name opening items closing semicolon =>
    rw [List.mem_singleton.mp hl]
    trivial

/-! ## External names -/

/-- An external name that is a word. -/
def Landmark.IsImport : Landmark → Prop
  | .external name _ _ => IsWord name
  | _ => False

theorem Landmark.IsImport.isOutside {l : Landmark} (h : l.IsImport) : l.IsOutside := by
  cases l with
  | external name kind ty => exact h
  | _ => exact h.elim

/-- If the item declares external names, they are words. -/
def ProgramItem.Imports : ProgramItem → Prop
  | external e => ∀ l ∈ e.landmarks, l.IsImport
  | declaration _ | procedure _ | skipped _ => True

theorem externalLandmarks_imports {name : Terminal}
    (h : ∀ {text : String}, name.value? = some text → IsWord text) (kind : SymbolKind) (ty : Ty) :
    ∀ l ∈ externalLandmarks name kind ty, l.IsImport := by
  intro l hl
  obtain ⟨text, htext, rfl⟩ := List.mem_map.mp hl
  exact h (Option.mem_toList.mp htext)

namespace Window

theorem readExternal_imports (steps : Nat) {w : Window} (h : w.Names IsWord) :
    ∀ l ∈ (w.readExternal steps).1.landmarks, l.IsImport := by
  have hkeyword := h.later w.later_advance
  have hnext := hkeyword.later (later_advance w.advance)
  have hvars (spec : ScalarSpec) : ∀ name ∈ (separated (fun w : Window => w.expect .identifier) steps
      w.advance.readScalarSpec.2).1.toList, ∀ l ∈ externalLandmarks name .var spec.ty, l.IsImport :=
    separated_all (fun w => later_expect w .identifier)
      (fun w hw => externalLandmarks_imports (expect_identifier_isWord hw) _ _) steps
      (hkeyword.later (forward_readScalarSpec _))
  simp only [readExternal]
  split
  · exact List.forall_mem_flatMap.mpr (hvars _)
  · exact List.forall_mem_flatMap.mpr (hvars _)
  · exact externalLandmarks_imports
      (expect_identifier_isWord (hnext.later (forward_readScalarSpec _))) _ _
  · have hname := @expect_identifier_isWord _ hnext
    split
    next heq =>
      rw [heq] at hname
      exact externalLandmarks_imports hname _ _
    next heq =>
      rw [heq] at hname
      exact externalLandmarks_imports hname _ _
  · simp [External.landmarks]

theorem readProgramItems_imports (g : Grammar) (steps : Nat) {w : Window} (h : w.Names IsWord) :
    ∀ item ∈ (readProgramItems g steps w).1, item.Imports := by
  induction steps generalizing w with
  | zero => simp [readProgramItems]
  | succ steps ih =>
    have hforward : ForwardProcedures IsProcedureName g steps := forwardProcedures g (.inl rfl) steps
    simp only [readProgramItems]
    split
    · simp
    · split
      next hread =>
        exact List.forall_mem_cons.mpr ⟨trivial, ih (h.later (later_readDeclaration? hread))⟩
      next =>
        split
        · exact List.forall_mem_cons.mpr ⟨trivial, ih (h.later (hforward.procedure w))⟩
        · split
          · exact List.forall_mem_cons.mpr
              ⟨readExternal_imports steps h, ih (h.later (forward_readExternal steps w))⟩
          · exact List.forall_mem_cons.mpr ⟨trivial, ih (h.later w.later_advance)⟩

end Window

theorem ScopeStack.Legible.declareExternal {st : ScopeStack} (h : st.Legible) {name : String}
    (hname : IsWord name) (kind : SymbolKind) (ty : Ty) :
    (st.declareExternal name kind ty).2.Legible :=
  ⟨h.ne_nil, h.symbols.declareExternal fun _ => .inr hname,
    List.forall_mem_cons.mpr ⟨hname, h.externals⟩, h.procedures⟩

theorem Stage.legible_imports {s s' : Stage} (h : s.scopes.Legible) {landmarks : List Landmark}
    (hrun : s' = s.run landmarks) (himports : ∀ l ∈ landmarks, l.IsImport) :
    s'.scopes.Legible ∧ s'.structs = s.structs := by
  induction landmarks generalizing s with
  | nil =>
    subst hrun
    exact ⟨h, rfl⟩
  | cons l landmarks ih =>
    obtain ⟨hl, hmore⟩ := List.forall_mem_cons.mp himports
    cases l with
    | external name kind ty =>
      exact @ih (s.step (.external name kind ty)) (h.declareExternal hl kind ty) hrun hmore
    | _ => exact hl.elim

/-! ## Programs -/

theorem ProgramItem.lower_legibly {item : ProgramItem} (hnamed : item.Named IsProcedureName)
    (himports : item.Imports) : Legibly Anything item.lower := by
  cases item with
  | declaration d => exact d.lower_legibly
  | procedure p => exact p.lower_legibly hnamed
  | external e =>
    intro env henv
    have hvisits : Visits [] e.lower e.landmarks := e.lower_visits
    have hafter : (e.lower env).env.Legible := by
      obtain ⟨hscopes, hstructs⟩ := Stage.legible_imports henv.1 (hvisits env).stage himports
      refine ⟨hscopes, ?_⟩
      rw [show (e.lower env).env.structs = env.structs from hstructs]
      exact henv.2
    have hcode : ((external e).lower env).code = [] := e.lower_quiet env
    exact ⟨hafter, trivial, by simp [hcode]⟩
  | skipped token => exact .skip _ token

theorem ProgramItem.lower_listable {item : ProgramItem} (himports : item.Imports)
    (hproper : AllProper item.landmarks) {env : Env} (henv : env.Legible)
    (h : (env.stage []).Listable) : ((item.lower env).env.stage []).Listable := by
  have hvisits : Visits [] item.lower item.landmarks := item.lower_visits
  have hstage : (item.lower env).env.stage [] = (env.stage []).run item.landmarks :=
    (hvisits env).stage
  cases item with
  | declaration d =>
    rw [hstage]
    exact h.run hproper d.landmarks_outside
  | procedure p =>
    -- What was declared inside is gone, apart from structs.
    obtain ⟨name, hleaves⟩ := p.lower_leaves
    obtain ⟨hadds, -, -⟩ := hleaves env henv.ready
    refine ⟨hadds.ne_nil, h.symbols.adds hadds ?_, ?_⟩
    · simp [Symbol.Listable]
    · rw [hstage]
      exact Stage.run_unbroken h.structs hproper
  | external e =>
    rw [hstage]
    exact h.run hproper fun l hl => (himports l hl).isOutside
  | skipped token =>
    rw [hstage]
    exact h

/-- What a program is made of, if it was read from words. -/
structure ProgramItem.Written (item : ProgramItem) : Prop where
  named : item.Named IsProcedureName
  imports : item.Imports
  proper : AllProper item.landmarks

theorem lowerProgramItems_legible {items : List ProgramItem} (hitems : ∀ item ∈ items, item.Written)
    {env : Env} (henv : env.Legible) (h : (env.stage []).Listable) :
    (lowerProgramItems items env).env.Legible ∧
    ((lowerProgramItems items env).env.stage []).Listable ∧
    ∀ i ∈ (lowerProgramItems items env).code, i.Legible := by
  induction items generalizing env with
  | nil => exact ⟨henv, h, by simp [lowerProgramItems]⟩
  | cons item items ih =>
    obtain ⟨hitem, hmore⟩ := List.forall_mem_cons.mp hitems
    obtain ⟨hafter, -, hcode⟩ := item.lower_legibly hitem.named hitem.imports env henv
    obtain ⟨hfinal, hlisted, hrest⟩ :=
      ih hmore hafter (item.lower_listable hitem.imports hitem.proper henv h)
    exact ⟨hfinal, hlisted, List.forall_mem_append.mpr ⟨hcode, hrest⟩⟩

theorem header_legible {st : ScopeStack} (h : st.Legible) (hlisted : st.Every Symbol.Listable) :
    ∀ i ∈ header (st.global?.getD .empty) st.externals, i.Legible := by
  have hdirective : ∀ d ∈ headerDirectives (st.global?.getD .empty) st.externals, d.Legible := by
    refine List.forall_mem_cons.mpr ⟨trivial, List.forall_mem_append.mpr ⟨?_, ?_⟩⟩
    · intro d hd
      obtain ⟨s, hs, hd⟩ := List.mem_filterMap.mp hd
      have hmem := List.mem_reverse.mp hs
      unfold globalDirective? at hd
      split at hd
      next hkind =>
        cases hd
        exact hlisted.global s hmem hkind
      next hkind =>
        cases hd
        exact (h.symbols.global s hmem hkind).unbroken
      next => cases hd
      next => cases hd
    · intro d hd
      obtain ⟨s, hs, hd⟩ := List.mem_filterMap.mp hd
      have hname := (h.externals s (List.mem_reverse.mp hs)).unbroken
      unfold externalDirective? at hd
      split at hd <;> cases hd <;> exact hname
  intro i hi
  obtain ⟨d, hd, rfl⟩ := List.mem_map.mp hi
  exact Op.Legible.plain (hdirective d hd)

theorem Stage.start_every (P : Symbol → Prop) : start.scopes.Every P :=
  .openScope ⟨by simp [ScopeStack.empty], by simp [ScopeStack.empty, Scope.empty]⟩

theorem Program.lowerHead_stage (p : Program) (first : Token) :
    (p.lowerHead (.start first)).env.stage [] = .start := by
  have hpass (t : Terminal) (env : Env) := StillAt.terminal t env rfl
  simp only [lowerHead, bind_apply, modifyEnv, Env.stage, (hpass _ _).scopes, (hpass _ _).structs]
  rfl

/-- Whatever was read from words is lowered to code that can be read, and what it declares can be
listed. -/
theorem Program.lower_legible {p : Program} (hitems : ∀ item ∈ p.items, item.Written)
    (first : Token) : (p.lower (.start first)).env.scopes.Legible ∧
      (p.lower (.start first)).env.scopes.Every Symbol.Listable ∧
      ∀ i ∈ (p.lower (.start first)).code, i.Legible := by
  have hstart := p.lowerHead_stage first
  have hvisits : Visits [] (lowerProgramItems p.items) p.landmarks := lowerProgramItems_visits p.items
  rw [p.lower_code]
  generalize (p.lowerHead (.start first)).env = env at hstart ⊢
  have hlistable : (env.stage []).Listable := by
    rw [hstart]
    exact ⟨List.cons_ne_nil _ _, Stage.start_every _, by simp [StructTable.Unbroken, Stage.start,
      StructTable.empty]⟩
  have henv : env.Legible := by
    obtain ⟨hscopes, hstructs, -⟩ := Stage.mk.inj hstart
    rw [Env.Legible, hscopes, hstructs]
    exact ⟨⟨List.cons_ne_nil _ _, Stage.start_every _, by simp [ScopeStack.openScope,
      ScopeStack.empty, Scope.empty], by simp [ScopeStack.openScope, ScopeStack.empty]⟩,
      by simp [StructTable.IsStored, StructTable.empty]⟩
  have hfinal : (p.lower (.start first)).env.stage [] =
      (lowerProgramItems p.items env).env.stage [] := by
    have hstage := (hvisits env).stage
    rw [hstart] at hstage
    exact (p.lower_visits first).stage.trans hstage.symm
  rw [(Stage.mk.inj hfinal).1]
  obtain ⟨hlegible, hlisted, hcode⟩ := lowerProgramItems_legible hitems henv hlistable
  exact ⟨hlegible.1, hlisted.symbols, hcode⟩

/-- The items of a program that was scanned are written in words. -/
theorem scan_items_written {source file : String} {tokens : List Token}
    (h : scan source file = .ok tokens) (steps : Nat) :
    ∀ item ∈ ((Window.ofTokens tokens file).readProgram .full steps).1.items, item.Written := by
  intro item hitem
  have hwords := scan_names h
  have hnames : (Window.ofTokens tokens file).Names IsProcedureName :=
    fun t ht hkind => .inr (hwords t ht hkind)
  have hopening := (Window.later_expect (.ofTokens tokens file) .kwProgram).trans
    ((Window.later_expect _ .identifier).trans (Window.later_expect _ .openCurly))
  refine ⟨Window.readProgram_named .full (.inl rfl) steps _ hnames item hitem,
    Window.readProgramItems_imports .full steps (hwords.later hopening) item hitem, ?_⟩
  exact fun l hl => scan_landmarks_proper h steps l (List.mem_flatMap.mpr ⟨item, hitem, hl⟩)

theorem compile_legible {source file : String} {minDistance : Nat} {c : Compilation}
    (h : compile source file minDistance = .ok c) : ∀ i ∈ c.listing, i.Legible := by
  obtain ⟨tokens, hscan, rfl⟩ := exists_tokens_of_compile h
  rw [compileTokens, compileWindow_eq]
  obtain ⟨hscopes, hlisted, hcode⟩ := Program.lower_legible
    (scan_items_written hscan (Window.ofTokens tokens file).budget) (Window.ofTokens tokens file).ahead
  exact List.forall_mem_append.mpr ⟨header_legible hscopes hlisted, hcode⟩

/-- The text of a listing determines the listing, also if errors were found: the instructions can be
read off it, with their labels and operands, and no other program has a listing with this text and
other instructions. -/
theorem listing_text_determines_listing {source file : String} {tokens : List Token}
    (hscan : scan source file = .ok tokens) (minDistance : Nat) :
    ∃ c, compile source file minDistance = .ok c ∧
      readListing (renderListing c.listing) = some c.listing ∧
      ∀ (source' file' : String) (minDistance' : Nat) (c' : Compilation),
        compile source' file' minDistance' = .ok c' →
        renderListing c'.listing = renderListing c.listing → c'.listing = c.listing := by
  have hcompile : compile source file minDistance = .ok (compileTokens tokens file minDistance) := by
    unfold compile
    rw [hscan]
    rfl
  have hread := readListing_renderListing (compile_legible hcompile)
  refine ⟨_, hcompile, hread, fun source' file' minDistance' c' hcompile' htext => ?_⟩
  have hread' := readListing_renderListing (compile_legible hcompile')
  rw [htext, hread] at hread'
  exact (Option.some.inj hread').symm

/-- A text in which a procedure has no name, and neither has the program if none is given. -/
def anonymousText (program : String) : String :=
  "program " ++ program ++ " \x7b external int e; int x; void () \x7b void g() \x7b " ++
    "while (x < e) x := e; \x7d g(); \x7d \x7d"

def anonymousListing : String :=
  ".names 3\n.var 1 x\n.proc \n.external var 1 e\n: Enter 0\nJmp L$0\n$g: Enter 0\nL$1: Nop\n" ++
    "LoadG 3\nLoadG e\nLss\nFJmp L$2\nLoadG e\nStoG 3\nJmp L$1\nL$2: Nop\nLeave\nRet\n" ++
    "L$0: Nop\nCall 0 $g\nLeave\nRet\n"

/-- Two programs with one listing, in which a label and the name of a procedure are empty. -/
theorem listing_text_determines_listing_anonymous :
    (∃ tokens, scan (anonymousText "p") "sample" = .ok tokens) ∧
    ∃ c c', compile (anonymousText "p") "sample" 2 = .ok c ∧ c.errorCount = 1 ∧
      compile (anonymousText "") "other" 0 = .ok c' ∧ c'.errorCount = 2 ∧
      renderListing c.listing = anonymousListing ∧ renderListing c'.listing = anonymousListing ∧
      readListing anonymousListing = some c.listing ∧ c'.listing = c.listing := by
  have hfirst : ((compile (anonymousText "p") "sample" 2).toOption.map fun c =>
      (c.errorCount, renderListing c.listing)) = some (1, anonymousListing) := by decide +kernel
  have hsecond : ((compile (anonymousText "") "other" 0).toOption.map fun c =>
      (c.errorCount, renderListing c.listing)) = some (2, anonymousListing) := by decide +kernel
  cases hresult : compile (anonymousText "p") "sample" 2 with
  | error fault => simp [hresult, Except.toOption] at hfirst
  | ok result =>
    obtain ⟨tokens, hscan, -⟩ := exists_tokens_of_compile hresult
    obtain ⟨c, hcompile, hread, hunique⟩ := listing_text_determines_listing hscan 2
    rw [hcompile] at hfirst
    obtain ⟨hcount, htext⟩ := Prod.mk.inj (Option.some.inj hfirst)
    cases hcompile' : compile (anonymousText "") "other" 0 with
    | error fault => simp [hcompile', Except.toOption] at hsecond
    | ok c' =>
      rw [hcompile'] at hsecond
      obtain ⟨hcount', htext'⟩ := Prod.mk.inj (Option.some.inj hsecond)
      exact ⟨⟨tokens, hscan⟩, c, c', hresult ▸ hcompile, hcount, rfl, hcount', htext, htext',
        htext ▸ hread, hunique _ _ _ c' hcompile' (htext'.trans htext.symm)⟩

end SlotLang
