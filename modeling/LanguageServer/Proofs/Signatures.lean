import LanguageServer.Proofs.Describing
import LanguageServer.Proofs.Labels
import Mathlib.Data.List.Basic

/-!
# The parameter under the cursor

A signature shows all parameters of a function but its receivers, and says which of them the cursor is at.
The commas that the cursor has passed are counted for that. But it is by the number of all parameters that
this count is judged, so that it may name a parameter which is not shown.

* `CallSite.passed`, `CompiledFunction.receiverCount`: the counts;
* `length_parameters_signature`: the number of parameters that a signature shows;
* `signature_points_iff`: when a signature names a parameter that it shows;
* `active_parameter_exists_iff`: when all signatures of an answer do;
* `method_call_points`: they do for methods whose arguments are separated by commas.
-/

namespace LanguageServer

variable {s : Snapshot} {p : Position} {call : CallSite} {f : CompiledFunction}

/-! ### Counts -/

/-- The number of commas of a call that end before a position, in words. -/
def CallSite.passed (call : CallSite) (p : Position) : Nat :=
  Word.ofCount (call.commas.countP (·.range.stop.le p))

/-- The number of parameters of a function that are receivers. -/
def CompiledFunction.receiverCount (f : CompiledFunction) : Nat :=
  f.parameters.countP (·.definition.isReceiver)

/-- The functions that a call may mean. -/
def CallSite.functions (call : CallSite) (s : Snapshot) : List CompiledFunction :=
  (candidates s call).map (·.2)

theorem length_shownParameters_add (f : CompiledFunction) :
    (shownParameters f).length + f.receiverCount = f.parameters.length := by
  have all := List.length_eq_countP_add_countP (fun q : CompiledParameter => q.definition.isReceiver)
    (l := f.parameters)
  simp only [Bool.not_eq_true, Bool.decide_eq_false] at all
  rw [shownParameters, CompiledFunction.receiverCount, ← List.countP_eq_length_filter, all, Nat.add_comm]

/-- A signature has a place for each parameter that it shows. -/
theorem length_parameters_signature (s : Snapshot) (active : Nat) (f : CompiledFunction) :
    (signature s active f).parameters.length = (shownParameters f).length :=
  (records_signature f).marks.length_eq.symm

/-! ### Signatures -/

/-- A signature names a parameter that it shows, or none. -/
def Signature.Points (sig : Signature) : Prop := ∀ k ∈ sig.activeParameter, k < sig.parameters.length

/-- Of the numbers that are taken for parameters, those are not shown that come after all that are. -/
theorem signature_points_iff (s : Snapshot) (active : Nat) (f : CompiledFunction) :
    (signature s active f).Points ↔
      active < (shownParameters f).length ∨ (shownParameters f).length + f.receiverCount ≤ active := by
  rw [Signature.Points, length_parameters_signature, length_shownParameters_add]
  by_cases within : active < f.parameters.length
  · simp only [signature, if_pos within, Option.mem_some_iff, forall_eq']
    omega
  · simp only [signature, if_neg within, Option.not_mem_none, false_implies, implies_true, true_iff]
    omega

theorem signatureHelp_eq (found : callAt? s p = some call) :
    signatureHelp s p = some
      { signatures := (call.functions s).map (signature s (call.passed p))
        activeSignature :=
          call.resolved.bind fun i => ((candidates s call).findIdx? (·.1 == i)).map Word.ofCount
        activeParameter := call.passed p } := by
  rw [signatureHelp, found, Option.map_some, CallSite.passed, List.countP_eq_length_filter,
    CallSite.functions, List.map_map]
  rfl

/-- **The parameter under the cursor.** There is an answer in every call, and it names the parameter after
the commas that the cursor has passed. All its signatures show that parameter, or name none, exactly if for
none of the functions the number of these commas reaches that of the parameters that are shown without
reaching that of all parameters. -/
theorem active_parameter_exists_iff (found : callAt? s p = some call) :
    ∃ help, signatureHelp s p = some help ∧ help.activeParameter = call.passed p ∧
      ((∀ sig ∈ help.signatures, ∀ k ∈ sig.activeParameter, k < sig.parameters.length) ↔
        ∀ f ∈ call.functions s, call.passed p < (shownParameters f).length ∨
          (shownParameters f).length + f.receiverCount ≤ call.passed p) := by
  refine ⟨_, signatureHelp_eq found, rfl, ?_⟩
  rw [List.forall_mem_map]
  exact forall₂_congr fun f _ => signature_points_iff s _ f

theorem Program.of_mem_entries {α : Type} {table : List α} {meets : α → Bool} {i : Nat} {a : α}
    (h : (i, a) ∈ Program.entries table meets) : meets a = true := by
  obtain ⟨⟨b, j⟩, -, chosen⟩ := List.mem_filterMap.1 h
  dsimp only at chosen
  split at chosen
  · next met =>
    obtain ⟨rfl, rfl⟩ := Prod.mk.inj (Option.some.inj chosen)
    exact met
  · cases chosen

theorem CallSite.argumentCount_le (h : f ∈ call.functions s) :
    call.argumentCount ≤ f.parameters.length := by
  obtain ⟨⟨i, g⟩, listed, rfl⟩ := List.mem_map.1 h
  have meets := Program.of_mem_entries listed
  simp only [Bool.and_eq_true, decide_eq_true_eq] at meets
  exact meets.1.2

/-- As long as commas separate the arguments of a method call, all signatures show the parameter under the
cursor: the receiver is an argument, too, and the only one without a comma. -/
theorem method_call_points {note note' : Annotation} {object : Expr} {name : Token}
    {arguments : List Expr} {commas : List Token} {brackets : Brackets} {r r' : Option Reference}
    (found : (Expr.call note (.field note' object name r') arguments commas brackets r).callSite? p =
      some call)
    (separated : commas.length < arguments.length) (h : f ∈ call.functions s)
    (one : f.receiverCount = 1) : (signature s (call.passed p) f).Points := by
  rw [Expr.callSite?] at found
  split at found
  · obtain rfl := Option.some.inj found
    have enough := CallSite.argumentCount_le h
    have some_passed : Word.ofCount (commas.countP (·.range.stop.le p)) ≤ commas.length :=
      Nat.le_trans (Word.ofCount_le _) List.countP_le_length
    have all := length_shownParameters_add f
    rw [signature_points_iff, CallSite.passed]
    dsimp only at enough
    dsimp only
    omega
  · cases found

namespace Sample

/-- A method with one parameter beside the receiver. -/
def scaling : CompiledFunction :=
  let parameters := [parameter ["this"] .char "self", parameter [] .int "factor"]
  let f := declared mainFile "scale"
  { f with
    definition := { f.definition with parameters := parameters.map (·.definition) }
    parameters }

/-- A file in which that method is called with a comma after its only argument: `c.scale(1,)`. -/
def scalingCall : Snapshot :=
  let call : Expr :=
    .call ⟨columns 0 11, none⟩
      (.field ⟨columns 0 7, none⟩ (.name ⟨columns 0 1, some (.builtin .char)⟩ (word "c") none)
        (word "scale") none)
      [.int ⟨columns 8 9, none⟩ 1] [⟨.operator, .unknown, ",", columns 9 10⟩]
      ⟨⟨.operator, .unknown, "(", columns 7 8⟩, ⟨.operator, .unknown, ")", columns 10 11⟩⟩
      (some (.function 0 none))
  .single mainFile (some 1)
    { syntaxTree := { statements := [.expr call] }, program := { functions := [scaling] } }

/-- What is answered in that call when the cursor has passed some commas. -/
def scalingHelp (passed : Nat) : SignatureHelp :=
  { signatures := [⟨"void char.scale(int factor)", none, [(20, 26)], some passed⟩]
    activeSignature := some 0
    activeParameter := passed }

end Sample

open Sample in
/-- The case of a method call before its comma. -/
theorem parameter_before_comma_shown :
    ∃ call help, callAt? scalingCall ⟨3, 9⟩ = some call ∧
      signatureHelp scalingCall ⟨3, 9⟩ = some help ∧ help = scalingHelp 0 ∧
      ∀ sig ∈ help.signatures, ∀ k ∈ sig.activeParameter, k < sig.parameters.length := by
  obtain ⟨call, found⟩ : ∃ call, callAt? scalingCall ⟨3, 9⟩ = some call := ⟨_, rfl⟩
  have answer : signatureHelp scalingCall ⟨3, 9⟩ = some (scalingHelp 0) := by decide +kernel
  obtain ⟨help, answered, -, points⟩ := active_parameter_exists_iff found
  obtain rfl := Option.some.inj (answer.symm.trans answered)
  refine ⟨call, _, found, answered, rfl, points.2 fun f listed => Or.inl ?_⟩
  obtain rfl := Option.some.inj found
  obtain rfl := List.mem_singleton.1 listed
  decide +kernel

open Sample in
/-- After the comma the call has as many commas as the method has parameters that are shown: the parameter
that is named then is not there. -/
theorem parameter_after_comma_not_shown :
    signatureHelp scalingCall ⟨3, 10⟩ = some (scalingHelp 1) ∧
      ¬ ∀ sig ∈ (scalingHelp 1).signatures, ∀ k ∈ sig.activeParameter, k < sig.parameters.length := by
  decide +kernel

end LanguageServer
