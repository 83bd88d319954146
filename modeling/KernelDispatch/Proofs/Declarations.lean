import KernelDispatch.Artifact.Rendered
import KernelDispatch.Proofs.Symbol
import KernelDispatch.Proofs.Wrapper.Faithful
import Mathlib

/-! The functions of a family: a header declares them, a source defines them, and the wrappers call
no others. -/
namespace KernelDispatch

/-- A function as its head tells it. -/
structure Signature where
  variant : Variant
  returnType : String
  deriving DecidableEq, Repr

def Signature.prototype (g : Signature) : String := g.variant.prototype g.returnType

/-- A text that consists of the prototypes of some functions in order, each before a piece that goes
with it. -/
inductive Lists (follows : Signature → String → Prop) : List Signature → String → Prop
  | nil : Lists follows [] ""
  | cons {g : Signature} {gs : List Signature} {after text : String} (h : follows g after)
      (rest : Lists follows gs text) : Lists follows (g :: gs) (g.prototype ++ after ++ text)

namespace Lists
variable {follows : Signature → String → Prop}

theorem singleton {g : Signature} {after : String} (h : follows g after) :
    Lists follows [g] (g.prototype ++ after) := by
  have hcons := cons h nil
  rwa [String.append_empty] at hcons

theorem append {gs gs' : List Signature} {text text' : String} (h : Lists follows gs text)
    (h' : Lists follows gs' text') : Lists follows (gs ++ gs') (text ++ text') := by
  induction h with
  | nil => rwa [List.nil_append, String.empty_append]
  | cons hafter rest ih =>
    rw [List.cons_append, String.append_assoc]
    exact .cons hafter ih

theorem join {α : Type} {signatures : α → List Signature} {text : α → String} {as : List α}
    (h : ∀ a ∈ as, Lists follows (signatures a) (text a)) :
    Lists follows (as.flatMap signatures) (.join (as.map text)) := by
  induction as with
  | nil => exact .nil
  | cons a rest ih =>
    rw [List.forall_mem_cons] at h
    rw [List.flatMap_cons, List.map_cons, String.join_cons]
    exact h.1.append (ih h.2)

end Lists

namespace Family

/-- The functions that dispatch to the members: the wrapper and its diagnostic twin. -/
def wrappers (f : Family) : List Signature :=
  [⟨f.default.wrapper false, statusType⟩, ⟨f.default.wrapper true, nameType⟩]

def implementations (f : Family) : List Signature := f.members.map fun v => ⟨v, statusType⟩

def functions (f : Family) : List Signature := f.wrappers ++ f.implementations

def symbols (f : Family) : List String := f.functions.map fun g => g.variant.symbol

/-- The variant of a function has the identity of the default if the declared variants have. -/
theorem identity_of_mem_functions {f : Family}
    (h : ∀ v ∈ f.variants, v.identity = f.default.identity) {g : Signature}
    (hg : g ∈ f.functions) : g.variant.identity = f.default.identity := by
  have hmembers : ∀ v ∈ f.members, v.identity = f.default.identity := by
    intro v hv
    rcases List.mem_cons.mp (mem_members.mp hv) with rfl | hv
    · rfl
    · exact h v hv
  rcases List.mem_append.mp hg with hg | hg
  · rcases List.mem_pair.mp hg with rfl | rfl
    · rfl
    · rfl
  · obtain ⟨v, hv, rfl⟩ := List.mem_map.mp hg
    exact hmembers v hv

/-- The functions of a consistent family have different symbols. -/
theorem nodup_symbols {f : Family} (h : f.requireConsistent = .ok ()) : f.symbols.Nodup := by
  have hperm : f.symbols.Perm (f.declared.map Variant.symbol) := by
    have hmembers : f.implementations.map (fun g => g.variant.symbol) =
        f.members.map Variant.symbol := List.map_map
    unfold symbols functions declared
    rw [List.map_append, List.map_append, hmembers]
    exact List.perm_append_comm
  exact hperm.nodup_iff.mpr (nodup_declared_symbols h)

end Family

/-- What makes a prototype a declaration: a semicolon at the end of its line. Empty lines may
follow. -/
def EndsDeclaration (after : String) : Prop :=
  ∃ n, after = ";\n" ++ String.ofList (List.replicate n '\n')

theorem Family.lists_familyDeclarations (f : Family) :
    Lists (fun _ => EndsDeclaration) f.functions (familyDeclarations f) := by
  have hmember : ∀ v ∈ f.members,
      Lists (fun _ => EndsDeclaration) [⟨v, statusType⟩] (memberDeclaration v) := by
    intro v _
    unfold memberDeclaration
    dsimp only
    split_ifs
    · rw [String.append_assoc]
      exact .singleton ⟨1, rfl⟩
    · exact .singleton ⟨0, rfl⟩
  have hmembers : Lists (fun _ => EndsDeclaration) f.implementations
      (.join (f.members.map memberDeclaration)) := by
    have hjoin := Lists.join hmember
    rwa [← List.map_eq_flatMap] at hjoin
  -- The empty line behind the wrappers belongs to the second of them.
  have hwrappers : Lists (fun _ => EndsDeclaration) f.wrappers
      (.join ([false, true].map fun diagnostic =>
        (f.default.wrapper diagnostic).prototype (wrapperType diagnostic) ++ ";\n") ++ "\n") := by
    have hlist : Lists (fun _ => EndsDeclaration) f.wrappers _ :=
      .cons ⟨0, rfl⟩ (.singleton ⟨1, rfl⟩)
    simpa [wrappers, Signature.prototype, String.append_assoc, wrapperType] using hlist
  exact hwrappers.append hmembers

/-- The body of a member behind its prototype. -/
def BodyOf (body : Template) (g : Signature) (after : String) : Prop :=
  after = " \x7b\n" ++ body.fill g.variant.bodyValues ++ "\n"

/-- The body of a wrapper behind its prototype. -/
def DispatchOf (declarations : String) (p : Plan) (g : Signature) (after : String) : Prop :=
  after = " \x7b\n" ++ declarations ++ "\n" ++ p.code g.variant.debug ++ "\x7d\n"

theorem lists_functionText (f : Family) (body : Template) :
    Lists (BodyOf body) f.implementations (.join (f.members.map (functionText body))) := by
  have hmember : ∀ v ∈ f.members,
      Lists (BodyOf body) [⟨v, statusType⟩] (functionText body v) := by
    intro v _
    unfold functionText
    rw [String.append_assoc, String.append_assoc]
    refine .singleton ?_
    rw [BodyOf, String.append_assoc]
  have hjoin := Lists.join hmember
  rwa [← List.map_eq_flatMap] at hjoin

theorem lists_wrapperText (f : Family) (declarations : String) (p : Plan) :
    Lists (DispatchOf declarations p) f.wrappers
      (wrapperText f.default declarations p false ++ wrapperText f.default declarations p true) := by
  have hwrapper : ∀ diagnostic, Lists (DispatchOf declarations p)
      [⟨f.default.wrapper diagnostic, wrapperType diagnostic⟩]
      (wrapperText f.default declarations p diagnostic) := by
    intro diagnostic
    unfold wrapperText
    simp only [String.append_assoc]
    refine .singleton ?_
    simp only [DispatchOf, String.append_assoc]
    rfl
  exact (hwrapper false).append (hwrapper true)

/-- What a source is made from once it is rendered. -/
theorem exists_of_renderSource_eq_ok {d : Dispatch} {f : Family} {parts : SourceParts}
    {rendered : Rendered} (h : (renderSource d f parts).result = .ok rendered) :
    ∃ p declarations text, (d.plan f.variants f.default).result = .ok p ∧
      d.declarations p = .ok declarations ∧
      parts.file.fillAll (.ofList
        [("extra_includes", .join (parts.includes.map fun name => "#include \"" ++ name ++ "\"\n")),
          ("extra_defines", .join (parts.defines.map fun line => line ++ "\n")),
          ("functions", .join (f.members.map (functionText parts.body))),
          ("wrapper", wrapperText f.default declarations p false
            ++ wrapperText f.default declarations p true)]) = .ok text ∧
      rendered = ⟨banner [parts.file.name, parts.body.name] ++ text, p.findings⟩ := by
  unfold renderSource renderWrappers at h
  simp only [Reported.result_bind_eq_ok_iff] at h
  obtain ⟨-, -, -, -, wrappers, ⟨p, hp, declarations, hdeclarations, hwrappers⟩, -, -, text, htext,
    hrendered⟩ := h
  obtain rfl := Except.ok.inj hwrappers
  exact ⟨p, declarations, text, hp, hdeclarations, htext, (Except.ok.inj hrendered).symm⟩

/-- What tells the families of a group apart. -/
def Identity.kind (i : Identity) : OpKind × Layout × DataType := (i.op, i.layout, i.dataType)

/-- Within a group equal symbols stand for the same operation on the same layout and data type. -/
theorem Variant.kind_eq_of_symbol_eq {u v : Variant} (h : u.identity.group = v.identity.group)
    (hsymbol : u.symbol = v.symbol) : u.identity.kind = v.identity.kind := by
  have hdebug : u.debug = v.debug := by
    have hcount := u.count_symbol
    rw [hsymbol, v.count_symbol, h] at hcount
    have hnat : u.debug.toNat = v.debug.toNat := by omega
    revert hnat
    cases u.debug <;> cases v.debug <;> decide
  have hlist := congrArg String.toList hsymbol
  rw [toList_symbol, toList_symbol, hdebug, h] at hlist
  have hgroup := (List.cons.inj (List.append_cancel_left hlist)).2
  obtain ⟨hop, hlayout, hwords⟩ := tail_inj (List.cons.inj (List.append_cancel_left hgroup)).2
  have hdata := DataType.words_inj (part_eq_of_words_eq hwords .dataType)
  rw [Identity.kind, hop, hlayout, hdata, ← Identity.kind]

namespace Family

/-- Families of one group whose variants share the identity of their default, and that differ in
kind, have no symbol in common. -/
theorem nodup_flatMap_symbols {families : List Family}
    (hconsistent : ∀ f ∈ families, f.requireConsistent = .ok ())
    (hgroup : ∀ f ∈ families, ∀ f' ∈ families,
      f.default.identity.group = f'.default.identity.group)
    (hkinds : families.Pairwise fun f f' => f.default.identity.kind ≠ f'.default.identity.kind)
    (hidentity : ∀ f ∈ families, ∀ v ∈ f.variants, v.identity = f.default.identity) :
    (families.flatMap symbols).Nodup := by
  rw [List.nodup_flatMap]
  refine ⟨fun f hf => nodup_symbols (hconsistent f hf), hkinds.imp_of_mem ?_⟩
  intro f f' hf hf' hne s hs hs'
  obtain ⟨g, hg, rfl⟩ := List.mem_map.mp hs
  obtain ⟨g', hg', hsymbol⟩ := List.mem_map.mp hs'
  have hdefault := identity_of_mem_functions (hidentity f hf) hg
  have hdefault' := identity_of_mem_functions (hidentity f' hf') hg'
  have hsame : g.variant.identity.group = g'.variant.identity.group := by
    rw [hdefault, hdefault', hgroup f hf f' hf']
  have hkind := Variant.kind_eq_of_symbol_eq hsame hsymbol.symm
  rw [hdefault, hdefault'] at hkind
  exact hne hkind

/-- A header lists the prototypes of the wrapper, of its diagnostic twin and of the members of each
family. A source defines functions with the same prototypes, its plan calls only functions that it
defines, and no symbol is declared twice if the families differ in kind. -/
theorem declared_defined_called {families : List Family}
    (hconsistent : ∀ f ∈ families, f.requireConsistent = .ok ()) :
    (∀ header group guard, ∃ listing,
      Lists (fun _ => EndsDeclaration) (families.flatMap functions) listing ∧
        renderHeader families header group guard = (header.fillAll (.ofList
          [("capital_file_name", guard), ("func_group", group), ("functions", listing)])).map
            fun text => ⟨banner [header.name] ++ text, []⟩) ∧
    (∀ f ∈ families, ∀ d parts rendered, (renderSource d f parts).result = .ok rendered →
      ∃ p declarations bodies wrappers text,
        (d.plan f.variants f.default).result = .ok p ∧
        d.declarations p = .ok declarations ∧
        Lists (BodyOf parts.body) f.implementations bodies ∧
        Lists (DispatchOf declarations p) f.wrappers wrappers ∧
        parts.file.fillAll (.ofList
          [("extra_includes",
              .join (parts.includes.map fun name => "#include \"" ++ name ++ "\"\n")),
            ("extra_defines", .join (parts.defines.map fun line => line ++ "\n")),
            ("functions", bodies), ("wrapper", wrappers)]) = .ok text ∧
        rendered.text = banner [parts.file.name, parts.body.name] ++ text ∧
        (f.implementations ++ f.wrappers).Perm f.functions ∧
        ∀ v ∈ p.root.targets, v ∈ f.members ∧
          (⟨v, statusType⟩ : Signature) ∈ families.flatMap functions) ∧
    ((∀ f ∈ families, ∀ f' ∈ families,
        f.default.identity.group = f'.default.identity.group) →
      families.Pairwise (fun f f' => f.default.identity.kind ≠ f'.default.identity.kind) →
      (∀ f ∈ families, ∀ v ∈ f.variants, v.identity = f.default.identity) →
      (families.flatMap symbols).Nodup) := by
  refine ⟨fun header group guard => ?_, fun f hf d parts rendered hrendered => ?_,
    nodup_flatMap_symbols hconsistent⟩
  · refine ⟨_, Lists.join fun f _ => f.lists_familyDeclarations, ?_⟩
    have hchecks := forM_eq_ok_iff.mpr hconsistent
    unfold renderHeader
    rw [hchecks]
    rfl
  · obtain ⟨p, declarations, text, hp, hdeclarations, htext, rfl⟩ :=
      exists_of_renderSource_eq_ok hrendered
    have hbuilt := (Dispatch.plan_eq_ok hp).2.imp And.right And.right
    refine ⟨p, declarations, _, _, text, hp, hdeclarations, lists_functionText f parts.body,
      lists_wrapperText f declarations p, htext, rfl, List.perm_append_comm, fun v hv => ?_⟩
    have hmember : v ∈ f.members := mem_members.mpr (Plan.mem_of_mem_targets hbuilt hv)
    have himplemented : (⟨v, statusType⟩ : Signature) ∈ f.implementations :=
      List.mem_map_of_mem hmember
    exact ⟨hmember, List.mem_flatMap.mpr ⟨f, hf, List.mem_append_right _ himplemented⟩⟩

/-- Two families that differ in their data type. The first lists its default, the second does
not. -/
theorem declared_defined_called_two_data_types :
    let identity : DataType → Identity := fun d => ⟨"krn", .maxPool, .hwc, d, []⟩
    let square : DataType → Variant := fun d =>
      { identity := identity d, kernelW := 3, kernelH := 3, padding := .krnPad }
    let default : DataType → Variant := fun d => .fallback (identity d) []
    let families : List Family :=
      [⟨[square .fx16, default .fx16], default .fx16⟩, ⟨[square .sa8], default .sa8⟩]
    (∀ f ∈ families, f.requireConsistent = .ok ()) ∧ (families.flatMap symbols).Nodup := by
  intro identity square default families
  have hconsistent : ∀ f ∈ families, f.requireConsistent = .ok () := by decide
  exact ⟨hconsistent, (declared_defined_called hconsistent).2.2 (by decide) (by decide) (by decide)⟩

end Family
end KernelDispatch
