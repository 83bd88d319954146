import KernelDispatch.Proofs.Encoding.Codec

/-! What a manifest declares is read back from its text. -/
namespace KernelDispatch
open Json

namespace ValueSet

/-- The members of a range are found under their keys. -/
theorem range?_members {f l s : Json} {first limit step : UInt32} (hf : f.word? = some first)
    (hl : l.word? = some limit) (hs : s.word? = some step) :
    range? [("from", f), ("to", l), ("step", s)] = some (.range first limit step) := by
  have hfrom : uniqueMember? [("from", f), ("to", l), ("step", s)] "from" = some f := rfl
  have hto : uniqueMember? [("from", f), ("to", l), ("step", s)] "to" = some l := rfl
  have hstep : uniqueMember? [("from", f), ("to", l), ("step", s)] "step" = some s := rfl
  rw [range?, hfrom, hto, hstep]
  simp [hf, hl, hs]

theorem plain_encode (vs : ValueSet) : Plain 1 vs.encode := by
  cases vs with
  | one n => exact plain_ofWord 1 n
  | list ns =>
    refine .array fun j hj => ?_
    obtain ⟨n, -, rfl⟩ := List.mem_map.mp hj
    exact plain_ofWord 0 n
  | range first limit step =>
    apply Plain.object
    simp [plain_ofWord]

theorem undoes : Undoes decode encode 1 := by
  refine Undoes.untagged ?_ plain_encode
  intro vs
  cases vs with
  | one n => exact congrArg (Option.map ValueSet.one) (word?_ofWord n)
  | list ns => exact congrArg (Option.map ValueSet.list) (mapM_map_eq_pure word?_ofWord ns)
  | range first limit step =>
    exact range?_members (word?_ofWord first) (word?_ofWord limit) (word?_ofWord step)

theorem undoes_option : Undoes (Decoder.option decode) (ofOption encode) 1 := by
  apply undoes.option
  intro vs
  cases vs <;> exact nofun

end ValueSet

namespace CoreRoutines

theorem undoes : Undoes decode encode 1 := by
  refine Undoes.untagged ?_ ?_
  · intro core
    cases core with
    | one name => rfl
    | many names =>
      have hnames : (names.map Json.string).mapM string? = some names :=
        mapM_map_eq_pure (g := Json.string) (fun _ => rfl) names
      exact congrArg (Option.map CoreRoutines.many) hnames
  · intro core
    cases core with
    | one name => exact .string name
    | many names => exact Undoes.string.list.plain names

end CoreRoutines

theorem Arg.undoes : Undoes decode encode 1 :=
  ⟨fun _ => rfl, fun a => Undoes.string.list.plain [a.type, a.name]⟩

theorem undoes_optionalString : Undoes (Decoder.option Decoder.string) (ofOption .string) 0 :=
  Undoes.string.option fun _ => nofun

theorem undoes_optionalStrings :
    Undoes (Decoder.option (Decoder.list Decoder.string)) (ofOption (ofList .string)) 1 :=
  Undoes.string.list.option fun _ => nofun

theorem VariantDecl.undoes : Undoes decode encode 2 := by
  refine Undoes.record (by decide) fun d => ?_
  exact .field CoreRoutines.undoes (by decide) <|
    .field ValueSet.undoes_option (by decide) <|
    .field ValueSet.undoes_option (by decide) <|
    .field ValueSet.undoes_option (by decide) <|
    .field ValueSet.undoes_option (by decide) <|
    .field ValueSet.undoes_option (by decide) <|
    .field ValueSet.undoes_option (by decide) <|
    .field ValueSet.undoes_option (by decide) <|
    .field (Undoes.tag Padding) (by decide) .nil

theorem GenericDecl.undoes : Undoes decode encode 2 := by
  refine Undoes.record (by decide) fun d => ?_
  exact .field CoreRoutines.undoes (by decide) .nil

theorem DispatchDecl.undoes : Undoes decode encode 2 := by
  refine Undoes.record (by decide) fun d => ?_
  exact .field (Undoes.tag Style) (by decide) <|
    .field (Undoes.tag Param).list (by decide) <|
    .field Undoes.bindings (by decide) .nil

theorem HeaderDecl.undoes : Undoes decode encode 1 := by
  refine Undoes.record (by decide) fun d => ?_
  exact .field Undoes.string (by decide) <|
    .field Undoes.string (by decide) <|
    .field Undoes.string (by decide) .nil

theorem TargetDecl.undoes : Undoes decode encode 4 := by
  refine Undoes.record (by decide) fun d => ?_
  exact .field Undoes.string (by decide) <|
    .field Undoes.string (by decide) <|
    .field ((Undoes.tag Layout).option fun _ => nofun) (by decide) <|
    .field ((Undoes.tag DataType).option fun _ => nofun) (by decide) <|
    .field undoes_optionalString (by decide) <|
    .field undoes_optionalStrings (by decide) <|
    .field undoes_optionalStrings (by decide) <|
    .field VariantDecl.undoes.list (by decide) <|
    .field (GenericDecl.undoes.option fun _ => nofun) (by decide) <|
    .field undoes_optionalString (by decide) <|
    .field (DispatchDecl.undoes.option fun _ => nofun) (by decide) .nil

theorem ManifestDecl.undoes : Undoes decode encode 6 := by
  refine Undoes.record (by decide) fun d => ?_
  exact .field Undoes.string (by decide) <|
    .field (Undoes.tag OpKind) (by decide) <|
    .field Undoes.string (by decide) <|
    .field Arg.undoes.list (by decide) <|
    .field Undoes.string (by decide) <|
    .field (HeaderDecl.undoes.option fun _ => nofun) (by decide) <|
    .field DispatchDecl.undoes (by decide) <|
    .field TargetDecl.undoes.list (by decide) .nil

/-- The text of what a text declares. -/
def normalize {α : Type} (decode : Decoder α) (encode : α → Json) (s : String) :
    Except DecodeError String := do
  return (encode (← decode.ofText s)).text

/-- Encoding to text loses nothing, and the texts of encoded values are normal forms. -/
structure Faithful {α : Type} (decode : Decoder α) (encode : α → Json) : Prop where
  read_back : ∀ a, decode.ofText (encode a).text = .ok a
  normal : ∀ s, (normalize decode encode s >>= normalize decode encode) = normalize decode encode s

theorem Undoes.faithful {α : Type} {decode : Decoder α} {encode : α → Json} {depth : Nat}
    (h : Undoes decode encode depth) (hdepth : depth ≤ maxDepth) : Faithful decode encode := by
  have hread : ∀ a, decode.ofText (encode a).text = .ok a := by
    intro a
    rw [Decoder.ofText, ((h.plain a).mono hdepth).read_text]
    change (decode (encode a) >>= _) = _
    rw [h.decode_encode]
    rfl
  refine ⟨hread, fun s => ?_⟩
  unfold normalize
  cases decode.ofText s with
  | error e => rfl
  | ok a =>
    change (decode.ofText (encode a).text >>= _) = _
    rw [hread]

/-- What a manifest consists of is decoded from its text as it was, and decoding a text and encoding
what it declares is the same done twice as done once. -/
theorem faithful_encodings :
    Faithful ValueSet.decode ValueSet.encode ∧ Faithful CoreRoutines.decode CoreRoutines.encode ∧
    Faithful VariantDecl.decode VariantDecl.encode ∧
    Faithful GenericDecl.decode GenericDecl.encode ∧
    Faithful TargetDecl.decode TargetDecl.encode ∧
    Faithful DispatchDecl.decode DispatchDecl.encode ∧
    Faithful HeaderDecl.decode HeaderDecl.encode ∧ Faithful Arg.decode Arg.encode ∧
    Faithful ManifestDecl.decode ManifestDecl.encode ∧
    Faithful Decoder.tag (ofTag : OpKind → Json) ∧ Faithful Decoder.tag (ofTag : Layout → Json) ∧
    Faithful Decoder.tag (ofTag : DataType → Json) ∧ Faithful Decoder.tag (ofTag : Padding → Json) ∧
    Faithful Decoder.tag (ofTag : Param → Json) ∧ Faithful Decoder.tag (ofTag : Style → Json) :=
  ⟨ValueSet.undoes.faithful (by decide), CoreRoutines.undoes.faithful (by decide),
    VariantDecl.undoes.faithful (by decide), GenericDecl.undoes.faithful (by decide),
    TargetDecl.undoes.faithful (by decide), DispatchDecl.undoes.faithful (by decide),
    HeaderDecl.undoes.faithful (by decide), Arg.undoes.faithful (by decide),
    ManifestDecl.undoes.faithful (by decide), (Undoes.tag OpKind).faithful (by decide),
    (Undoes.tag Layout).faithful (by decide), (Undoes.tag DataType).faithful (by decide),
    (Undoes.tag Padding).faithful (by decide), (Undoes.tag Param).faithful (by decide),
    (Undoes.tag Style).faithful (by decide)⟩

example : (normalize ValueSet.decode ValueSet.encode "\x7b \"to\": 4, \"from\": 1 \x7d").toOption =
    some "\x7b\"from\":1,\"to\":4,\"step\":1\x7d" := by
  decide +kernel

end KernelDispatch
