import KernelDispatch.Plan.Dispatch
import KernelDispatch.Proofs.Chains
import KernelDispatch.Proofs.Classes

/-! The variables of a wrapper: those that its plan tests, and those of its hierarchy. -/
namespace KernelDispatch

namespace Operand

theorem mem_all (o : Operand) : o ∈ all := by
  cases o with
  | field f => exact List.mem_append_left _ (List.mem_map_of_mem f.mem_all)
  | padding s => exact List.mem_append_right _ (List.mem_map_of_mem s.mem_all)

theorem nodup_words : (all.map word).Nodup := by decide

theorem word_inj {o o' : Operand} (h : o.word = o'.word) : o = o' :=
  List.inj_on_of_nodup_map nodup_words o.mem_all o'.mem_all h

end Operand

/-- The values that a level reads if it tests a parameter. -/
def Param.operands : Param → List Operand
  | .field f => [.field f]
  | .padding => Side.all.map .padding

theorem Param.variableNames_eq (p : Param) : p.variableNames = p.operands.map Operand.word := by
  cases p <;> rfl

theorem Param.nodup_operands (p : Param) : p.operands.Nodup := by
  cases p with
  | field f => exact List.nodup_singleton _
  | padding => decide

theorem Param.eq_of_mem_operands {p q : Param} {o : Operand} (hp : o ∈ p.operands)
    (hq : o ∈ q.operands) : p = q := by
  cases p <;> cases q <;> simp_all [operands]

/-- The values that the levels of a hierarchy read. -/
def operandsOf (hierarchy : List Param) : List Operand := hierarchy.flatMap Param.operands

theorem flatMap_variableNames (hierarchy : List Param) :
    hierarchy.flatMap Param.variableNames = (operandsOf hierarchy).map Operand.word := by
  rw [operandsOf, List.map_flatMap]
  exact List.flatMap_congr fun p _ => p.variableNames_eq

theorem word_mem_variableNames_iff {hierarchy : List Param} {o : Operand} :
    o.word ∈ hierarchy.flatMap Param.variableNames ↔ o ∈ operandsOf hierarchy := by
  rw [flatMap_variableNames, List.mem_map]
  constructor
  · rintro ⟨o', ho', hword⟩
    exact Operand.word_inj hword ▸ ho'
  · intro ho
    exact ⟨o, ho, rfl⟩

/-- Levels that test different parameters read different values. -/
theorem nodup_operandsOf {hierarchy : List Param} (h : hierarchy.Nodup) :
    (operandsOf hierarchy).Nodup := by
  rw [operandsOf, List.nodup_flatMap]
  refine ⟨fun p _ => p.nodup_operands, h.imp fun {p q} hne => ?_⟩
  intro o hp hq
  exact hne (Param.eq_of_mem_operands hp hq)

/-- A condition tests a value if one of its comparisons is about that value. -/
def Condition.Tests (c : Condition) (o : Operand) : Prop := ∃ d ∈ c.comparisons, d.operand = o

/-- A plan tests a value if an arm of one of its chains does. -/
def Node.Tests (n : Node) (o : Operand) : Prop := ∃ c ∈ n.chains, ∃ a ∈ c.toList, a.1.Tests o

theorem Condition.mem_operands_iff {c : Condition} {o : Operand} :
    o ∈ c.operands ↔ c.Tests o := by
  rw [operands, List.mem_eraseDups, List.mem_map, Tests]

mutual
theorem Node.mem_reads_iff {o : Operand} : ∀ n : Node, o ∈ n.reads ↔ n.Tests o
  | .call _ => by simp [Node.reads, Node.Tests, Node.chains]
  | .chain arms => by
    rw [Node.reads, arms.mem_reads_iff, Node.Tests, Node.chains, List.exists_mem_cons_iff]

/-- A chain reads what its arms test and what the chains in it test. -/
theorem Arms.mem_reads_iff {o : Operand} : ∀ arms : Arms, o ∈ arms.reads ↔
    (∃ a ∈ arms.toList, a.1.Tests o) ∨ ∃ c ∈ arms.innerChains, ∃ a ∈ c.toList, a.1.Tests o
  | .otherwise n => by
    rw [Arms.reads, n.mem_reads_iff, Arms.toList, Arms.innerChains, Node.Tests]
    simp
  | .arm c n rest => by
    rw [Arms.reads, List.mem_append, List.mem_append, Condition.mem_operands_iff, n.mem_reads_iff,
      rest.mem_reads_iff, Node.Tests, Arms.toList, Arms.innerChains, List.exists_mem_cons_iff]
    simp only [List.mem_append, or_and_right, exists_or]
    exact or_or_or_comm
end

/-- Whether a condition holds depends on the values that it tests only. -/
theorem Condition.eval_eq_of_agree {c : Condition} {r r' : Runtime}
    (h : ∀ o, c.Tests o → o.value r = o.value r') : c.eval r = c.eval r' := by
  rw [eval_eq_all_comparisons, eval_eq_all_comparisons]
  have hsame : ∀ d ∈ c.comparisons, d.eval r = d.eval r' := by
    intro d hd
    rw [Comparison.eval, Comparison.eval, h d.operand ⟨d, hd, rfl⟩]
  rw [Bool.eq_iff_iff, List.all_eq_true, List.all_eq_true]
  exact forall₂_congr fun d hd => by rw [hsame d hd]

mutual
/-- Calls with the same values where a plan reads them get the same variant. -/
theorem Node.select_eq_of_agree {r r' : Runtime} :
    ∀ n : Node, (∀ o ∈ n.reads, o.value r = o.value r') → n.select r = n.select r'
  | .call _, _ => rfl
  | .chain arms, h => arms.select_eq_of_agree h

theorem Arms.select_eq_of_agree {r r' : Runtime} :
    ∀ arms : Arms, (∀ o ∈ arms.reads, o.value r = o.value r') → arms.select r = arms.select r'
  | .otherwise n, h => n.select_eq_of_agree h
  | .arm c n rest, h => by
    rw [Arms.reads] at h
    have hc : c.eval r = c.eval r' := Condition.eval_eq_of_agree fun o ho =>
      h o (List.mem_append_left _ (List.mem_append_left _ (Condition.mem_operands_iff.mpr ho)))
    have hn : n.select r = n.select r' := n.select_eq_of_agree fun o ho =>
      h o (List.mem_append_left _ (List.mem_append_right _ ho))
    have hrest : rest.select r = rest.select r' := rest.select_eq_of_agree fun o ho =>
      h o (List.mem_append_right _ ho)
    rw [Arms.select, Arms.select, hc, hn, hrest]
end

/-- The condition for a key reads only what its level reads. -/
theorem BranchKey.mem_operands_of_tests {p : Param} {v : Variant} {o : Operand}
    (h : ((of p v).condition p).Tests o) : o ∈ p.operands := by
  obtain ⟨d, hd, rfl⟩ := h
  cases p with
  | field f =>
    have hsingle : d = ⟨.field f, .eq, v.value f⟩ := List.mem_singleton.mp hd
    rw [hsingle]
    exact List.mem_singleton_self _
  | padding =>
    have hside : ∀ relation (m : Margins),
        d ∈ (Side.all.map fun s => (⟨.padding s, relation, m.get s⟩ : Comparison)) →
          d.operand ∈ Param.padding.operands := by
      intro relation m hmem
      obtain ⟨s, -, rfl⟩ := List.mem_map.mp hmem
      exact List.mem_map_of_mem s.mem_all
    change d ∈ v.paddingTest.condition.comparisons at hd
    cases ht : v.paddingTest with
    | any =>
      rw [ht] at hd
      exact absurd hd List.not_mem_nil
    | exact m =>
      rw [ht] at hd
      exact hside .eq m hd
    | atMost m =>
      rw [ht] at hd
      exact hside .le m hd

/-- A tree tests nothing but the parameters of its hierarchy. -/
theorem Tree.mem_operandsOf_of_tests {default : Variant} {hierarchy : List Param}
    {vs : List Variant} {o : Operand} (h : (node default hierarchy vs).Tests o) :
    o ∈ operandsOf hierarchy := by
  obtain ⟨c, hc, a, ha, htests⟩ := h
  obtain ⟨passed, p, rest, us, rfl, -, harms, -⟩ := exists_level_of_mem_chains hc
  rw [harms, levelArms] at ha
  obtain ⟨g, hg, rfl⟩ := List.mem_map.mp ha
  obtain ⟨⟨u, -, hu⟩, -⟩ := mem_partition (List.mem_filter.mp hg).1
  rw [← hu] at htests
  exact List.mem_flatMap.mpr
    ⟨p, List.mem_append_right _ List.mem_cons_self, BranchKey.mem_operands_of_tests htests⟩

namespace Dispatch

theorem hierarchyVariables_eq (d : Dispatch) :
    d.hierarchyVariables = (operandsOf d.hierarchy).map Operand.word :=
  flatMap_variableNames d.hierarchy

/-- The values that a plan reads beyond those of the hierarchy. -/
def others (d : Dispatch) (p : Plan) : List Operand :=
  Operand.all.filter fun o => o ∈ p.root.operands ∧ o ∉ operandsOf d.hierarchy

theorem mem_others {d : Dispatch} {p : Plan} {o : Operand} :
    o ∈ d.others p ↔ p.root.Tests o ∧ o ∉ operandsOf d.hierarchy := by
  rw [others, List.mem_filter, and_iff_right o.mem_all, decide_eq_true_iff, Node.operands,
    List.mem_eraseDups, Node.mem_reads_iff]

theorem wrapperVariables_eq (d : Dispatch) (p : Plan) :
    d.wrapperVariables p = (operandsOf d.hierarchy ++ d.others p).map Operand.word := by
  have hothers : ((Operand.all.filter fun o => o ∈ p.root.operands).map Operand.word).filter
      (fun name => name ∉ d.hierarchyVariables) = (d.others p).map Operand.word := by
    rw [List.filter_map, List.filter_filter, others]
    congr 2
    funext o
    have hnew : decide (o.word ∉ d.hierarchyVariables) = decide (o ∉ operandsOf d.hierarchy) :=
      decide_eq_decide.mpr (not_congr word_mem_variableNames_iff)
    rw [Function.comp_apply, hnew, Bool.and_comm, Bool.decide_and]
  rw [wrapperVariables, hothers, hierarchyVariables_eq, List.map_append]

/-- A wrapper declares no variable twice. -/
theorem nodup_wrapperVariables {d : Dispatch} (h : d.hierarchy.Nodup) (p : Plan) :
    (d.wrapperVariables p).Nodup := by
  rw [wrapperVariables_eq]
  refine List.Nodup.map (fun _ _ => Operand.word_inj) ?_
  rw [List.nodup_append']
  have hall : Operand.all.Nodup := List.Nodup.of_map _ Operand.nodup_words
  exact ⟨nodup_operandsOf h, hall.filter _, fun o ho hother => (mem_others.mp hother).2 ho⟩

theorem word_mem_wrapperVariables {d : Dispatch} {p : Plan} {o : Operand} (h : p.root.Tests o) :
    o.word ∈ d.wrapperVariables p := by
  rw [wrapperVariables_eq]
  refine List.mem_map_of_mem (List.mem_append.mpr ?_)
  by_cases ho : o ∈ operandsOf d.hierarchy
  · exact .inl ho
  · exact .inr (mem_others.mpr ⟨h, ho⟩)

/-- What a plan does depends on the variables of its wrapper only. -/
theorem select_eq_of_agree (d : Dispatch) (p : Plan) {r r' : Runtime}
    (h : ∀ o : Operand, o.word ∈ d.wrapperVariables p → o.value r = o.value r') :
    p.select r = p.select r' :=
  p.root.select_eq_of_agree fun o ho =>
    h o (word_mem_wrapperVariables ((Node.mem_reads_iff p.root).mp ho))

theorem expressions_eq_ok {d : Dispatch} {names : List String}
    (h : ∀ name ∈ names, d.bindings.binds name = true) :
    d.expressions names = .ok (names.map fun name => (name, (d.bindings.get? name).getD "")) := by
  induction names with
  | nil => rfl
  | cons name rest ih =>
    obtain ⟨hname, hrest⟩ := List.forall_mem_cons.mp h
    obtain ⟨expression, hget⟩ := Option.isSome_iff_exists.mp hname
    have hfound := ih hrest
    rw [expressions] at hfound
    rw [expressions, List.mapM_cons, hfound, hget]
    simp [hget]
    rfl

/-- The first name without an expression is the one that is reported. -/
theorem expressions_eq_error {d : Dispatch} {before after : List String} {name : String}
    (hbefore : ∀ n ∈ before, d.bindings.binds n = true) (hname : d.bindings.binds name = false) :
    d.expressions (before ++ name :: after) = .error (.missingBinding name) := by
  have hget : d.bindings.get? name = none := Option.isNone_iff_eq_none.mp (Option.isSome_eq_false_iff.mp hname)
  have hok := expressions_eq_ok hbefore
  rw [expressions] at hok
  rw [expressions, List.mapM_append, hok, List.mapM_cons, hget]
  rfl

section Declarations
variable {d : Dispatch} {p : Plan}

theorem declarations_eq_ok (h : ∀ name ∈ d.wrapperVariables p, d.bindings.binds name = true) :
    d.declarations p = .ok (.join ((d.wrapperVariables p).map fun name =>
      "    int " ++ name ++ " = " ++ (d.bindings.get? name).getD "" ++ ";\n")) := by
  rw [declarations, expressions_eq_ok h]
  change Except.ok (String.join (List.map _ (List.map _ _))) = _
  rw [List.map_map]
  rfl

theorem declarations_eq_error {before after : List String} {name : String}
    (hsplit : d.wrapperVariables p = before ++ name :: after)
    (hbefore : ∀ n ∈ before, d.bindings.binds n = true) (hname : d.bindings.binds name = false) :
    d.declarations p = .error (.missingBinding name) := by
  rw [declarations, hsplit, expressions_eq_error hbefore hname]
  rfl

theorem exists_declarations_iff :
    (∃ text, d.declarations p = .ok text) ↔
      ∀ name ∈ d.wrapperVariables p, d.bindings.binds name = true := by
  rw [← exists_expressions_iff, declarations]
  cases d.expressions (d.wrapperVariables p) with
  | error e => exact iff_of_false nofun nofun
  | ok bound => exact iff_of_true ⟨_, rfl⟩ ⟨bound, rfl⟩

end Declarations

section Build
variable {d : Dispatch} {variants : List Variant} {default : Variant}

/-- A tree tests nothing beyond the parameters of its hierarchy. -/
theorem others_eq_nil {p : Plan}
    (h : (Tree.plan variants d.hierarchy default).result = .ok p) : d.others p = [] := by
  rw [List.eq_nil_iff_forall_not_mem]
  intro o ho
  obtain ⟨htests, hnot⟩ := mem_others.mp ho
  rw [Tree.root_of_plan h] at htests
  exact hnot (Tree.mem_operandsOf_of_tests htests)

/-- Past the check of the bindings no plan fails for want of one. -/
theorem plan_ne_missingBinding (hd : requireHierarchy d.hierarchy = .ok ())
    (hbound : ∀ name ∈ d.hierarchyVariables, d.bindings.binds name = true) (name : String) :
    (d.plan variants default).result ≠ .error (.missingBinding name) := by
  rw [result_plan, requireBindings_eq_ok_iff.mpr hbound]
  cases d.style with
  | flat => exact nofun
  | tree =>
    intro herror
    have hclass := (Tree.result_plan_eq_error_iff (requireHierarchy_eq_ok_iff.mp hd).2).mp herror
    obtain ⟨c, -, hc⟩ := List.exists_of_findSome?_eq_some hclass
    unfold unresolved at hc
    split at hc
    · split at hc <;> cases hc
    · cases hc

end Build
end Dispatch

/-- The interface of a convolution or a pooling offers every value that a plan can read. -/
theorem Bindings.binds_standard {identity : Identity}
    (h : identity.op.family = .convolution ∨ identity.op.family = .pooling) (o : Operand) :
    (standard identity).binds o.word = true := by
  have hwords : ∀ kernelW kernelH channels : String, (ofList
      [("stride_w", "cfg->stride_width"), ("stride_h", "cfg->stride_height"),
        ("kernel_w", kernelW), ("kernel_h", kernelH),
        ("padding_top", "cfg->padding_top"), ("padding_bot", "cfg->padding_bottom"),
        ("padding_left", "cfg->padding_left"), ("padding_right", "cfg->padding_right"),
        ("channels", channels)]).binds o.word = true := by
    intro kernelW kernelH channels
    rw [binds_ofList]
    change o.word ∈ ["stride_w", "stride_h", "kernel_w", "kernel_h", "padding_top", "padding_bot",
      "padding_left", "padding_right", "channels"]
    cases o with
    | field f => cases f <;> decide
    | padding s => cases s <;> decide
  unfold standard kernelExpressions
  rcases h with h | h
  · rw [h]
    exact hwords _ _ _
  · rw [h]
    exact hwords _ _ _

theorem Dispatch.binds_of_mem_wrapperVariables {d : Dispatch} {identity : Identity}
    (hfamily : identity.op.family = .convolution ∨ identity.op.family = .pooling)
    (hbound : ∀ name, (Bindings.standard identity).binds name = true → d.bindings.binds name = true)
    (p : Plan) : ∀ name ∈ d.wrapperVariables p, d.bindings.binds name = true := by
  intro name hname
  rw [wrapperVariables_eq] at hname
  obtain ⟨o, -, rfl⟩ := List.mem_map.mp hname
  exact hbound o.word (Bindings.binds_standard hfamily o)

/-- The variables of a wrapper are without repetition those of the hierarchy and then the others
that the plan tests. They determine what is called. Their declarations are written if each has an
expression, and else the first without one is reported, which does not happen in a tree or where
the interface of a convolution or a pooling is bound. -/
theorem Dispatch.wrapperVariables_of_plan {d : Dispatch}
    (hd : requireHierarchy d.hierarchy = .ok ()) (variants : List Variant) (default : Variant) :
    (∀ p, (d.plan variants default).result = .ok p →
      (d.wrapperVariables p).Nodup ∧
      (∃ others, d.wrapperVariables p = d.hierarchy.flatMap Param.variableNames ++ others ∧
        others.Sublist ["stride_w", "stride_h", "kernel_w", "kernel_h", "channels",
          "padding_top", "padding_bot", "padding_left", "padding_right"] ∧
        ∀ o : Operand, o.word ∈ others ↔
          p.root.Tests o ∧ o.word ∉ d.hierarchy.flatMap Param.variableNames) ∧
      (∀ r r', (∀ o : Operand, o.word ∈ d.wrapperVariables p → o.value r = o.value r') →
        p.select r = p.select r') ∧
      ((∃ text, d.declarations p = .ok text) ↔
        ∀ name ∈ d.wrapperVariables p, d.bindings.binds name = true) ∧
      (∀ text, d.declarations p = .ok text →
        text = .join ((d.wrapperVariables p).map fun name =>
          "    int " ++ name ++ " = " ++ (d.bindings.get? name).getD "" ++ ";\n")) ∧
      (∀ before name after, d.wrapperVariables p = before ++ name :: after →
        (∀ n ∈ before, d.bindings.binds n = true) → d.bindings.binds name = false →
        d.declarations p = .error (.missingBinding name)) ∧
      (d.style = .tree →
        d.wrapperVariables p = d.hierarchy.flatMap Param.variableNames ∧
        ∃ text, d.declarations p = .ok text)) ∧
    ∀ identity : Identity,
      identity.op.family = .convolution ∨ identity.op.family = .pooling →
      (∀ name, (Bindings.standard identity).binds name = true → d.bindings.binds name = true) →
      (∀ name, (d.plan variants default).result ≠ .error (.missingBinding name)) ∧
      ∀ p, (d.plan variants default).result = .ok p → ∃ text, d.declarations p = .ok text := by
  refine ⟨fun p hp => ?_, fun identity hfamily hbound => ⟨?_, fun p _ => ?_⟩⟩
  · obtain ⟨hnodup, -⟩ := requireHierarchy_eq_ok_iff.mp hd
    refine ⟨nodup_wrapperVariables hnodup p, ⟨(d.others p).map Operand.word, ?_, ?_, ?_⟩,
      fun r r' => d.select_eq_of_agree p, exists_declarations_iff, ?_, ?_, ?_⟩
    · rw [wrapperVariables_eq, List.map_append, flatMap_variableNames]
    · exact List.filter_sublist.map Operand.word
    · intro o
      rw [word_mem_variableNames_iff, ← mem_others, List.mem_map_of_injective]
      intro a b
      exact Operand.word_inj
    · intro text htext
      rw [declarations_eq_ok (exists_declarations_iff.mp ⟨text, htext⟩)] at htext
      exact (Except.ok.inj htext).symm
    · intro before name after
      exact declarations_eq_error
    · intro htree
      obtain ⟨hbindings, ⟨-, hplan⟩ | ⟨hflat, -⟩⟩ := plan_eq_ok hp
      · have hvariables : d.wrapperVariables p = d.hierarchyVariables := by
          rw [wrapperVariables_eq, others_eq_nil hplan, List.append_nil, hierarchyVariables_eq]
        refine ⟨hvariables, exists_declarations_iff.mpr ?_⟩
        rw [hvariables]
        exact requireBindings_eq_ok_iff.mp hbindings
      · exact nomatch htree.symm.trans hflat
  · apply plan_ne_missingBinding hd
    intro name hname
    rw [hierarchyVariables_eq] at hname
    obtain ⟨o, -, rfl⟩ := List.mem_map.mp hname
    exact hbound o.word (Bindings.binds_standard hfamily o)
  · exact exists_declarations_iff.mpr (binds_of_mem_wrapperVariables hfamily hbound p)

/-- A chain that tests three values, of which the hierarchy names one. Bindings for two of them do
not suffice, and those of the interface do. -/
theorem Dispatch.wrapperVariables_of_plan_unbound_kernel_height :
    let identity : Identity := ⟨"krn", .avePool, .chw, .fx16, []⟩
    let v : Variant := { identity, strideW := 2, kernelW := 3, kernelH := 3 }
    let default : Variant := .fallback identity []
    let some : Dispatch := ⟨.flat, [.field .kernelW],
      .ofList [("kernel_w", "cfg->kernel_width"), ("stride_w", "cfg->stride_width")]⟩
    let all : Dispatch := { some with bindings := .standard identity }
    let p : Plan := ⟨Flat.node default [v], []⟩
    requireHierarchy [.field .kernelW] = .ok () ∧
      (some.plan [v] default).result = .ok p ∧ (all.plan [v] default).result = .ok p ∧
      some.wrapperVariables p = ["kernel_w", "stride_w", "kernel_h"] ∧
      (some.wrapperVariables p).Nodup ∧
      some.declarations p = .error (.missingBinding "kernel_h") ∧
      ∃ text, all.declarations p = .ok text := by
  intro identity v default some all p
  have hh : requireHierarchy [.field .kernelW] = .ok () := by decide
  have hcandidates : Flat.candidates [.field .kernelW] [v] = [v] := by cbv
  have hplan : (Flat.plan [v] [.field .kernelW] default).result = .ok p := by
    rw [Flat.plan, hcandidates]
    rfl
  have hsome : (some.plan [v] default).result = .ok p := by
    have hbound : some.requireBindings = .ok () := by cbv
    rw [result_plan, hbound]
    exact hplan
  have hall : (all.plan [v] default).result = .ok p := by
    have hbound : all.requireBindings = .ok () := by cbv
    rw [result_plan, hbound]
    exact hplan
  have hvariables : some.wrapperVariables p = ["kernel_w", "stride_w", "kernel_h"] := by cbv
  obtain ⟨hnodup, -, -, -, -, herror, -⟩ :=
    (wrapperVariables_of_plan (d := some) hh [v] default).1 p hsome
  obtain ⟨-, hdeclared⟩ :=
    (wrapperVariables_of_plan (d := all) hh [v] default).2 identity (.inr rfl) fun _ h => h
  refine ⟨hh, hsome, hall, hvariables, hnodup, ?_, hdeclared p hall⟩
  refine herror ["kernel_w", "stride_w"] "kernel_h" [] hvariables ?_ (by cbv)
  intro name hname
  rcases List.mem_pair.mp hname with rfl | rfl <;> cbv

end KernelDispatch
