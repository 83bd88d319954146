import KernelDispatch.Plan.Code
import KernelDispatch.Proofs.Wrapper.Meaning

/-! The text of a plan reads as the statements that the plan stands for. -/
namespace KernelDispatch
open Text

theorem Text.isPlain_decimal (n : UInt32) : IsPlain (decimal n) := by
  intro c hc
  have hdigit := isDigit_of_mem_decimal hc
  simp [isWordChar, Char.isAlphanum, hdigit]

theorem Operand.isPlain_word (o : Operand) : IsPlain o.word := by
  cases o with
  | field f => cases f <;> decide
  | padding s => cases s <;> decide

theorem Operand.word_ne_empty (o : Operand) : o.word ≠ "" := by
  cases o with
  | field f => cases f <;> decide
  | padding s => cases s <;> decide

namespace Spells

theorem comparison (c : Comparison) : Spells c.text c.test.tokens := by
  have hspace : Spells " " [] := by decide
  have hrelation : Spells c.relation.word [.relation c.relation] := by
    cases c.relation <;> decide
  -- from the last character to the first, since a word needs to know what follows it
  have hlimit : Spells (decimal c.limit ++ ")") [.word (decimal c.limit), .mark .closeParen] :=
    word_append (isPlain_decimal c.limit) Nat.repr_ne_empty ⟨')', [], rfl, rfl⟩ closeParen
  have hname := word_append c.operand.isPlain_word c.operand.word_ne_empty
    (EndsWord.append ⟨' ', [], rfl, rfl⟩ _) (hspace.append (hrelation.append (hspace.append hlimit)))
  have htext := openParen.append hname
  simp only [← String.append_assoc] at htext
  exact htext

theorem both : Spells " && " [.both] := by decide

/-- The comparisons after the first, however they are set apart from each other. -/
theorem brokenAfter {indent : String} (hindent : AllBlank indent)
    (last : Comparison) (cs : List Comparison) :
    Spells (Condition.brokenAfter indent last cs)
      ((cs.map Comparison.test).flatMap fun t => .both :: t.tokens) := by
  induction cs generalizing last with
  | nil => exact blanks nofun
  | cons c cs ih =>
    have hline : Spells " &&\n" [.both] := by decide
    have hbreak : Spells (" &&\n" ++ indent) [.both] := hline.append (blanks hindent)
    rw [Condition.brokenAfter, List.map_cons, List.flatMap_cons]
    split_ifs
    · exact (both.append (comparison c)).append (ih c)
    · exact (hbreak.append (comparison c)).append (ih c)

theorem comparisons (c : Comparison) (cs : List Comparison) :
    Spells (" && ".intercalate ((c :: cs).map Comparison.text))
      (Test.conjunction ((c :: cs).map Comparison.test)) := by
  induction cs generalizing c with
  | nil =>
    have hone := comparison c
    rw [← List.append_nil c.test.tokens] at hone
    rw [List.map_singleton, String.intercalate_singleton]
    exact hone
  | cons d ds ih =>
    have hall := ((comparison c).append both).append (ih d)
    rw [List.append_assoc] at hall
    rw [List.map_cons, List.map_cons, String.intercalate_cons_cons]
    exact hall

theorem text (c : Condition) : Spells c.text (Test.conjunction c.tests) := by
  unfold Condition.text Condition.tests
  cases c.comparisons with
  | nil => decide
  | cons d ds => exact comparisons d ds

theorem guardText (c : Condition) : Spells c.guardText (Test.guard c.tests) := by
  unfold Condition.guardText Test.guard
  rw [show c.tests.length = c.comparisons.length from List.length_map _]
  split_ifs
  · exact (openParen.append (text c)).append closeParen
  · exact text c

theorem brokenGuardText {indent : String} (hindent : AllBlank indent)
    (c : Condition) : Spells (c.brokenGuardText indent) (Test.guard c.tests) := by
  unfold Condition.brokenGuardText
  split
  · next first second rest h =>
    have hfirst := openParen.append (comparison first)
    rw [Test.guard, Condition.tests, h, if_pos (by simp)]
    exact (hfirst.append (brokenAfter hindent first (second :: rest))).append closeParen
  · exact guardText c

/-- The arguments of a call, each behind some blanks, up to the text that follows them. -/
theorem arguments {lead sep after : String} {ts : List Token} {names : List String}
    (hnames : ∀ n ∈ names, IsPlain n) (hlead : Spells lead [])
    (hsep : Spells sep [.mark .comma]) (hsepEnds : EndsWord sep)
    (hafter : Spells after ts) (hafterEnds : EndsWord after) :
    Spells (sep.intercalate (names.map fun n => lead ++ n) ++ after)
      (wordTokens (names.headD "") ++
        (names.tail.flatMap (fun n => .mark .comma :: wordTokens n) ++ ts)) := by
  induction names with
  | nil => exact hafter
  | cons n rest ih =>
    have hn := hnames n List.mem_cons_self
    cases rest with
    | nil =>
      rw [List.map_singleton, String.intercalate_singleton, String.append_assoc]
      exact hlead.append (plain_append hn hafterEnds hafter)
    | cons m rest =>
      have hlater := hsep.append (ih fun k hk => hnames k (List.mem_cons_of_mem n hk))
      have hall := hlead.append (plain_append hn (hsepEnds.append _) hlater)
      rw [List.map_cons, List.map_cons, String.intercalate_cons_cons]
      simp only [List.map_cons, ← String.append_assoc] at hall ⊢
      simp only [List.headD_cons, List.tail_cons, List.flatMap_cons, List.nil_append,
        List.cons_append, List.append_assoc] at hall ⊢
      exact hall

end Spells

/-- The names in the call of a variant consist of letters, digits and underscores. -/
def Variant.HasPlainNames (v : Variant) : Prop :=
  IsPlain v.identity.group ∧ ∀ a ∈ v.identity.args, IsPlain a.name

instance (v : Variant) : Decidable v.HasPlainNames :=
  inferInstanceAs (Decidable (_ ∧ _))

private theorem isPlain_kernelPart (w h : UInt32) : IsPlain (Variant.kernelPart w h) := by
  have hk : IsPlain "_k" := by decide
  have hx : IsPlain "x" := by decide
  have hopenH : IsPlain "xn" := by decide
  have hopenW : IsPlain "_knx" := by decide
  unfold Variant.kernelPart
  split_ifs
  · decide
  · exact (hk.append (isPlain_decimal w)).append hopenH
  · exact hopenW.append (isPlain_decimal h)
  · exact ((hk.append (isPlain_decimal w)).append hx).append (isPlain_decimal h)

private theorem isPlain_channelsPart (n : UInt32) : IsPlain (Variant.channelsPart n) := by
  have hch : IsPlain "_ch" := by decide
  unfold Variant.channelsPart
  split_ifs
  · decide
  · exact hch.append (isPlain_decimal n)

private theorem isPlain_stridePart (w h : UInt32) : IsPlain (Variant.stridePart w h) := by
  have hboth : IsPlain "_str" := by decide
  have hw : IsPlain "_strw" := by decide
  have hh : IsPlain "_strh" := by decide
  unfold Variant.stridePart
  split_ifs
  · decide
  · exact hh.append (isPlain_decimal h)
  · exact hboth.append (isPlain_decimal w)
  · exact (hw.append (isPlain_decimal w)).append (by decide)
  · exact (hw.append (isPlain_decimal w)).append (hh.append (isPlain_decimal h))

theorem Variant.isPlain_symbol {v : Variant} (h : IsPlain v.identity.group) :
    IsPlain v.symbol := by
  have hdebug : IsPlain (if v.debug then "_debug" else "") := by split <;> decide
  have hgeneric : IsPlain (if v.generic then "_generic" else "") := by split <;> decide
  have hop : IsPlain v.identity.op.word := by cases v.identity.op <;> decide
  have hlayout : IsPlain v.identity.layout.word := by cases v.identity.layout <;> decide
  have htype : IsPlain v.identity.dataType.word := by cases v.identity.dataType <;> decide
  have hpadding : IsPlain (paddingPart v.padding) := by cases v.padding <;> decide
  have hname : IsPlain "mli" := by decide
  have hscore : IsPlain "_" := by decide
  have hgroup := ((hname.append hdebug).append hscore).append h
  have htags := (((((hgroup.append hscore).append hop).append hscore).append hlayout).append
    hscore).append htype
  have hvalues := ((htags.append (isPlain_kernelPart v.kernelW v.kernelH)).append
    (isPlain_channelsPart v.channels)).append (isPlain_stridePart v.strideW v.strideH)
  exact (hvalues.append hpadding).append hgeneric

theorem Variant.symbol_ne_empty (v : Variant) : v.symbol ≠ "" := by
  unfold symbol
  simp

namespace Spells

theorem argList {names : List String} (hnames : ∀ n ∈ names, IsPlain n) (broken : Bool) :
    Spells (Arg.list names broken ++ ";")
      (.mark .openParen :: (wordTokens (names.headD "") ++
        (names.tail.flatMap (fun n => .mark .comma :: wordTokens n) ++
          [.mark .closeParen, .mark .semicolon]))) := by
  have hend := closeParen.append semicolon
  have hendEnds : EndsWord (")" ++ ";") := EndsWord.append ⟨')', [], rfl, rfl⟩ ";"
  cases broken with
  | false =>
    have hsep : Spells ", " [.mark .comma] := by decide
    have hempty : Spells "" [] := by decide
    have hlist := openParen.append
      (arguments hnames hempty hsep ⟨',', [' '], rfl, rfl⟩ hend hendEnds)
    simp only [String.empty_append, List.map_id', ← String.append_assoc] at hlist
    exact hlist
  | true =>
    have hsep : Spells "," [.mark .comma] := by decide
    have hlead : Spells "\n        " [] := by decide
    have hlist := openParen.append (arguments hnames hlead hsep ⟨',', [], rfl, rfl⟩ hend hendEnds)
    simp only [← String.append_assoc] at hlist
    exact hlist

theorem call {v : Variant} (h : v.HasPlainNames) : Spells v.call (v.returned false).tokens := by
  have hnames : ∀ n ∈ v.identity.args.map Arg.name, IsPlain n := by
    simpa using h.2
  have hfit : ∀ broken, Spells (v.symbol ++ Arg.list (v.identity.args.map Arg.name) broken ++ ";")
      (v.returned false).tokens := by
    intro broken
    have hends : EndsWord (Arg.list (v.identity.args.map Arg.name) broken) := by
      cases broken with
      | false => exact (EndsWord.append ⟨'(', [], rfl, rfl⟩ _).append _
      | true => exact (EndsWord.append ⟨'(', [], rfl, rfl⟩ _).append _
    have hcall := word_append (Variant.isPlain_symbol h.1) v.symbol_ne_empty (hends.append ";")
      (argList hnames broken)
    rw [← String.append_assoc] at hcall
    change Spells _ (Answer.tokens (.call v.symbol _ _))
    rw [Answer.tokens, List.append_assoc]
    exact hcall
  unfold Variant.call fitList
  dsimp only
  split_ifs
  · exact hfit true
  · exact hfit false

theorem quotedSymbol {v : Variant} (h : v.HasPlainNames) :
    Spells v.quotedSymbol (v.returned true).tokens := by
  have hcast : Spells "(char*)" [.mark .openParen, .word "char", .mark .star, .mark .closeParen] := by
    decide
  have hall := (hcast.append (quoted (Variant.isPlain_symbol h.1))).append semicolon
  have hleft : "(char*)\"" = "(char*)" ++ "\"" := by decide
  have hright : "\";" = "\"" ++ ";" := by decide
  rw [Variant.quotedSymbol, hleft, hright]
  simp only [← String.append_assoc] at hall ⊢
  exact hall

theorem answer {v : Variant} (h : v.HasPlainNames) (diagnostic : Bool) :
    Spells (v.answer diagnostic) (v.returned diagnostic).tokens := by
  cases diagnostic with
  | false =>
    rw [Variant.answer, if_neg Bool.false_ne_true]
    exact call h
  | true =>
    rw [Variant.answer, if_pos rfl]
    exact quotedSymbol h

theorem armHead {indent keyword : String} {ts : List Token} (hindent : AllBlank indent)
    (hkeyword : Spells keyword ts) (c : Condition) :
    Spells (armHead indent keyword c) (ts ++ Test.guard c.tests ++ [.mark .openBrace]) := by
  have hopen : Spells " \x7b\n" [.mark .openBrace] := by decide
  have hbefore : Spells (indent ++ keyword) ts := (blanks hindent).append hkeyword
  unfold KernelDispatch.armHead
  dsimp only
  split_ifs
  · exact (hbefore.append
      (brokenGuardText ((hindent.append allBlank_step).append allBlank_step) c)).append hopen
  · exact (hbefore.append (guardText c)).append hopen

end Spells

mutual
/-- The text of a plan reads as the statements of the plan at any indentation. -/
theorem Node.spells_code (diagnostic : Bool) {indent : String} (hindent : AllBlank indent) :
    ∀ n : Node, (∀ v ∈ n.targets, v.HasPlainNames) →
      Spells (n.code diagnostic indent) (n.statements diagnostic).tokens
  | .call v, h => by
    have hreturn : Spells "return " [.word "return"] := by decide
    have hline : Spells "\n" [] := by decide
    have hanswer := (Spells.answer (h v (List.mem_singleton_self v)) diagnostic).hang hindent
    exact (((Spells.blanks hindent).append hreturn).append hanswer).append hline
  | .chain arms, h => arms.spells_code diagnostic hindent h

theorem Arms.spells_code (diagnostic : Bool) {indent : String} (hindent : AllBlank indent) :
    ∀ arms : Arms, (∀ v ∈ arms.targets, v.HasPlainNames) →
      Spells (arms.code diagnostic indent) (arms.statements diagnostic).tokens
  | .otherwise n, h => n.spells_code diagnostic hindent h
  | .arm c n rest, h => by
    rw [Arms.targets, List.forall_mem_append] at h
    have hif : Spells "if " [.word "if"] := by decide
    have hbody := n.spells_code diagnostic (hindent.append allBlank_step) h.1
    have hrest := rest.spells_elseCode diagnostic hindent h.2
    have hall := ((Spells.armHead hindent hif c).append hbody).append hrest
    rw [Arms.statements, Statements.tokens, Statements.tokens, List.append_nil]
    simpa only [Arms.code, List.cons_append, List.nil_append, List.append_assoc] using hall

theorem Arms.spells_elseCode (diagnostic : Bool) {indent : String} (hindent : AllBlank indent) :
    ∀ arms : Arms, (∀ v ∈ arms.targets, v.HasPlainNames) →
      Spells (arms.elseCode diagnostic indent)
        (.mark .closeBrace :: (arms.elsePart diagnostic).tokens)
  | .otherwise n, h => by
    have helse : Spells "\x7d else \x7b\n" [.mark .closeBrace, .word "else", .mark .openBrace] := by
      decide
    have hclose : Spells "\x7d\n" [.mark .closeBrace] := by decide
    have hblanks := Spells.blanks hindent
    have hbody := n.spells_code diagnostic (hindent.append allBlank_step) h
    have hall := (((hblanks.append helse).append hbody).append hblanks).append hclose
    rw [List.append_nil] at hall
    exact hall
  | .arm c n rest, h => by
    rw [Arms.targets, List.forall_mem_append] at h
    have helse : Spells "\x7d else if " [.mark .closeBrace, .word "else", .word "if"] := by decide
    have hbody := n.spells_code diagnostic (hindent.append allBlank_step) h.1
    have hrest := rest.spells_elseCode diagnostic hindent h.2
    have hall := ((Spells.armHead hindent helse c).append hbody).append hrest
    rw [Arms.elsePart, ElsePart.tokens]
    simpa only [Arms.elseCode, List.cons_append, List.nil_append, List.append_assoc] using hall
end

end KernelDispatch
