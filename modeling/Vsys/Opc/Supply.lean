import Vsys.Opc.Effects
import Vsys.State.Storage
import Vsys.Sample

/-!
# Supplies over runs of contract functions

A function runs its opcodes one after another on the state so far, so what every opcode keeps the
function keeps, and so does any number of functions.  That a total stays below its maximum needs the
count of a contract's tokens not to wrap: it is a 32-bit number that nothing bounds.
-/

namespace Vsys

open Lib

open scoped Ledger

section Runs

variable [Platform]

/-- The number of tokens the lines of a function create. -/
def newTokens (lines : List ByteStr) : Nat := (lines.filter isNewToken).length

/-- The opcode lines of a function, none when it cannot be read. -/
def opcLines (opcFunc : ByteStr) : List ByteStr :=
  match OpcFuncDiffer.fromBytes opcFunc with
  | .ok (_, _, _, _, lines) => lines
  | .error _ => []

namespace OpcFuncDiffer

variable {context : ExecutionContext} {data data' : List DataEntry} {d d' : OpcDiff}

/-- The tokens in the middle of a function are those before it with what the diff so far adds. -/
@[simp]
theorem tokens_stateSoFar : (stateSoFar context d).tokens = context.state.tokens.after d := rfl

/-- A line that succeeds adds its own diff, made over the state so far, to the diffs of the
lines before it. -/
theorem step_eq_ok {opc : ByteStr} (h : step context (d, data) opc = .ok (d', data')) :
    ∃ e, OpcDiffer.apply { context with state := stateSoFar context d } opc data = .ok (e, data') ∧
      d' = d.combine e := by
  obtain ⟨⟨e, data''⟩, happly, h⟩ := bind_eq_ok_iff.mp h
  obtain ⟨rfl, rfl⟩ := Prod.mk.inj (Except.ok.inj h)
  exact ⟨e, happly, rfl⟩

/-- What the opcodes of a function keep: the function's sums are exact so far, its tokens are
conserved, and its stack is valid. -/
structure Running (context : ExecutionContext) (st : OpcDiff × List DataEntry) : Prop where
  addsTo : st.1.AddsTo context.state.tokens
  conserved : (context.state.tokens.after st.1).Conserved
  data : ValidData st.2

/-- One opcode of a running function. -/
theorem Running.step {opc : ByteStr} (hs : context.state.EntriesValid)
    (ht : context.state.tokens.Conserved) (hrun : Running context (d, data))
    (h : step context (d, data) opc = .ok (d', data')) :
    Running context (d', data') ∧ ∃ e, d' = d.combine e ∧
      e.TokenEffect (context.state.tokens.after d) context.contractId ∧
      ((e.contractTokens.lookup context.contractId.bytes).isSome → isNewToken opc) ∧
      context.state.tokens.after d' = (context.state.tokens.after d).after e := by
  obtain ⟨e, happly, rfl⟩ := step_eq_ok h
  have hentries : (stateSoFar context d).EntriesValid := hs.view _
  obtain ⟨heffect, hnew, hdata⟩ := @OpcDiffer.apply_eq_ok _
    { context with state := stateSoFar context d } opc data data' e hentries hrun.conserved
    hrun.data happly
  have hafter := TokenState.after_combine ht hrun.addsTo (heffect.addsTo hrun.conserved)
  refine ⟨⟨?_, ?_, hdata⟩, e, rfl, heffect, hnew, hafter⟩
  · exact hrun.addsTo.combine ht (heffect.addsTo hrun.conserved)
  · rw [hafter]
    exact heffect.conserved hrun.conserved

/-- A function starts with an empty diff that adds to every balance and conserves the tokens. -/
theorem running_start (ht : context.state.tokens.Conserved) (hdata : ValidData data) :
    Running context (OpcDiff.empty, data) where
  addsTo := fun k v hv => by
    rw [OpcDiff.empty, Finmap.lookup_empty] at hv
    cases hv
  conserved := by
    refine ht.after (fun k v hv => ?_) fun c i => ?_
    · rw [OpcDiff.empty, Finmap.lookup_empty] at hv
      cases hv
    · simp [OpcDiff.delta, OpcDiff.empty]
  data := hdata

/-- What a function that succeeds is made of. -/
theorem apply_eq_ok (h : apply context data = .ok d) :
    ∃ data', (opcLines context.opcFunc).foldlM (step context) (OpcDiff.empty, data)
      = .ok (d, data') := by
  unfold apply at h
  split at h
  · exact (left_ne_ok.mp h).elim
  · rename_i lines hlines
    split at h
    · exact (left_ne_ok.mp h).elim
    · split at h
      · exact (left_ne_ok.mp h).elim
      · obtain ⟨⟨d', data'⟩, hfold, h⟩ := bind_eq_ok_iff.mp h
        obtain rfl := Except.ok.inj h
        refine ⟨data', ?_⟩
        rw [opcLines, hlines]
        exact hfold

/-- A function that succeeds has exact sums and conserves every token. -/
theorem running_of_apply (hs : context.state.EntriesValid) (ht : context.state.tokens.Conserved)
    (hdata : ValidData data) (h : apply context data = .ok d) :
    ∃ data', Running context (d, data') := by
  obtain ⟨data', hfold⟩ := apply_eq_ok h
  refine ⟨data', foldlM_invariant (I := Running context) ?_ (running_start ht hdata) hfold⟩
  intro st st' opc _ hrun hstep
  exact (Running.step hs ht hrun hstep).1

/-- The opcodes left to run keep every total below its maximum while the count of the tokens has
room for those they create. -/
theorem capped_of_foldlM {lines : List ByteStr} {st st' : OpcDiff × List DataEntry}
    (hs : context.state.EntriesValid) (ht : context.state.tokens.Conserved)
    (hrun : Running context st) (hcap : (context.state.tokens.after st.1).Capped)
    (hroom : ((context.state.tokens.after st.1).contractTokens context.contractId.bytes).toInt
      + newTokens lines ≤ 2147483647)
    (h : lines.foldlM (step context) st = .ok st') :
    (context.state.tokens.after st'.1).Capped := by
  induction lines generalizing st with
  | nil =>
      rw [List.foldlM_nil, pure_eq_ok_iff] at h
      exact h ▸ hcap
  | cons opc lines ih =>
      obtain ⟨⟨d', data'⟩, hstep, hrest⟩ := foldlM_cons_eq_ok_iff.mp h
      obtain ⟨hrun', e, rfl, heffect, hnew, hafter⟩ := Running.step hs ht hrun hstep
      have hcount : newTokens (opc :: lines)
          = newTokens lines + if isNewToken opc then 1 else 0 := by
        unfold newTokens
        rw [List.filter_cons]
        split <;> simp
      have hmax : Int32.maxValue.toInt = 2147483647 := rfl
      have hlt (hsome : (e.contractTokens.lookup context.contractId.bytes).isSome) :
          (context.state.tokens.after st.1).contractTokens context.contractId.bytes
            < Int32.maxValue := by
        rw [hcount, if_pos (hnew hsome)] at hroom
        rw [Int32.lt_iff_toInt_lt]
        omega
      refine ih hrun' ?_ ?_ hrest
      · rw [hafter]
        exact heffect.capped hrun.conserved hcap hlt
      · rw [hafter]
        have htokens := heffect.contractTokens_after hlt
        split at htokens
        · rename_i hsome
          rw [hcount, if_pos (hnew hsome)] at hroom
          omega
        · omega

/-- A function whose new tokens fit the count keeps every total below its maximum. -/
theorem capped_of_apply (hs : context.state.EntriesValid) (ht : context.state.tokens.Conserved)
    (hcap : context.state.tokens.Capped) (hdata : ValidData data)
    (hroom : (context.state.contractTokens context.contractId.bytes).toInt
      + newTokens (opcLines context.opcFunc) ≤ 2147483647)
    (h : apply context data = .ok d) : (context.state.tokens.after d).Capped := by
  obtain ⟨data', hfold⟩ := apply_eq_ok h
  have hempty := TokenState.after_empty context.state.tokens
  have hcap' : (context.state.tokens.after OpcDiff.empty).Capped := hempty.symm ▸ hcap
  have hroom' : ((context.state.tokens.after OpcDiff.empty).contractTokens
      context.contractId.bytes).toInt + newTokens (opcLines context.opcFunc) ≤ 2147483647 := by
    rw [hempty]
    exact hroom
  have hall := capped_of_foldlM hs ht (running_start ht hdata) hcap' hroom' hfold
  exact hall

end OpcFuncDiffer

/-- The law of the tokens a state counts: the total is the sum of the balances, no balance is
negative, and the total lies between zero and the maximum. -/
def TokenState.Lawful (t : TokenState) : Prop :=
  ∀ (c : ContractAccount) (i : Int32), 0 ≤ i → i < t.contractTokens c.bytes →
    t.total c i = ∑ a, t.balance c i a ∧ (∀ a, 0 ≤ t.balance c i a) ∧ 0 ≤ t.total c i ∧
      ∃ e m, t.tokenInfo (tokenKey (c.tokenId i) .max) = .ok (some e) ∧
        Longs.fromByteArray e.data = .ok m ∧ t.total c i ≤ m.toInt

/-- Conserved tokens within their caps are lawful. -/
theorem TokenState.Conserved.lawful {t : TokenState} (ht : t.Conserved) (hcap : t.Capped) :
    t.Lawful := fun c i h0 hi =>
  ⟨ht.total c i, fun _ => ht.nonneg _, ht.nonneg _, hcap.max c i h0 hi⟩

/-- A state without tokens and without state variables. -/
structure StateView.Blank (s : StateView) : Prop where
  contractTokens : ∀ id, s.contractTokens id = 0
  tokenAccountBalance : ∀ k, s.tokenAccountBalance k = 0
  contractInfo : ∀ k, s.contractInfo k = .ok none
  tokenInfo : ∀ k, s.tokenInfo k = .ok none

/-- The states reached from `s₀` by functions that succeed: of any contract, with any bytecode,
state variables and signers and any valid data, as long as their contexts satisfy `allowed`. -/
inductive FunctionRuns (allowed : ExecutionContext → Prop) (s₀ : StateView) : StateView → Prop
  | start : FunctionRuns allowed s₀ s₀
  | run {s : StateView} (hs : FunctionRuns allowed s₀ s) (context : ExecutionContext)
      (hstate : context.state = s) (hallowed : allowed context) (data : List DataEntry)
      (hdata : ValidData data) (d : OpcDiff) (h : OpcFuncDiffer.apply context data = .ok d) :
      FunctionRuns allowed s₀
        (CompositeStateReader.view s (d.asBlockDiff context.height context.transaction))

/-- The tokens a function creates still fit the count of its contract's tokens. -/
def HasRoom (context : ExecutionContext) : Prop :=
  (context.state.contractTokens context.contractId.bytes).toInt
    + newTokens (opcLines context.opcFunc) ≤ 2147483647

instance (context : ExecutionContext) : Decidable (HasRoom context) :=
  inferInstanceAs (Decidable (_ ≤ _))

/-- A state without tokens conserves them. -/
theorem StateView.Blank.conserved {s : StateView} (h : s.Blank) : s.tokens.Conserved where
  nonneg := fun k => by
    change 0 ≤ (s.tokenAccountBalance k).toInt
    rw [h.tokenAccountBalance]
    rfl
  total := fun c i => by
    have hzero (k : ByteStr) : (s.tokens.tokenAccountBalance k).toInt = 0 := by
      change (s.tokenAccountBalance k).toInt = 0
      rw [h.tokenAccountBalance]
      rfl
    simp [TokenState.total, TokenState.balance, hzero]

/-- A state without tokens keeps them within their caps. -/
theorem StateView.Blank.capped {s : StateView} (h : s.Blank) : s.tokens.Capped where
  count := fun c => by
    change 0 ≤ s.contractTokens c.bytes
    rw [h.contractTokens]
    decide
  max := fun c i h0 hi => by
    change i < s.contractTokens c.bytes at hi
    rw [h.contractTokens] at hi
    exact absurd h0 (Int32.not_le.mpr hi)
  fresh := fun c i _ => by
    change (s.tokenAccountBalance _).toInt = 0
    rw [h.tokenAccountBalance]
    rfl

/-- A state without entries has only valid ones. -/
theorem StateView.Blank.entriesValid {s : StateView} (h : s.Blank) : s.EntriesValid where
  contractInfo := fun k d hd => by
    rw [h.contractInfo] at hd
    cases hd
  tokenInfo := fun k d hd => by
    rw [h.tokenInfo] at hd
    cases hd

/-- What runs of functions keep while the counts of the tokens have room. -/
theorem FunctionRuns.keeps {s₀ s : StateView} (hs₀ : s₀.Blank) (h : FunctionRuns HasRoom s₀ s) :
    s.EntriesValid ∧ s.tokens.Conserved ∧ s.tokens.Capped := by
  induction h with
  | start => exact ⟨hs₀.entriesValid, hs₀.conserved, hs₀.capped⟩
  | run hs context hstate hroom data hdata d happly ih =>
      subst hstate
      obtain ⟨hentries, hconserved, hcapped⟩ := ih
      obtain ⟨data', hrun⟩ := OpcFuncDiffer.running_of_apply hentries hconserved hdata happly
      exact ⟨hentries.view _, hrun.conserved,
        OpcFuncDiffer.capped_of_apply hentries hconserved hcapped hdata hroom happly⟩

/-- Functions whose new tokens fit the count of the tokens keep the law, in any number. -/
theorem lawful_of_functionRuns {s₀ s : StateView} (hs₀ : s₀.Blank)
    (h : FunctionRuns HasRoom s₀ s) : s.tokens.Lawful :=
  let ⟨_, hconserved, hcapped⟩ := FunctionRuns.keeps hs₀ h
  hconserved.lawful hcapped

end Runs

namespace TokenOverflow

open scoped Sample
open ContractPermitted OpcId

/-- An empty state. -/
def start : StateView := (StateReaderImpl.reader StateStorage.empty).toStateView

/-- The start of the run has neither entries nor tokens. -/
theorem start_blank : start.Blank := ⟨fun _ => rfl, fun _ => rfl, fun _ => rfl, fun _ => rfl⟩

/-- An account. -/
def owner : Address := Address.fromPublicKey []

/-- A contract. -/
def contractId : ContractAccount := ContractAccount.fromId []

/-- A function that creates a token and issues some of it. -/
def issueFunc : ByteStr :=
  function 0 [] [.amount, .amount, .shortText, .address, .amount]
    (listOpc [opcTDBNewToken, opcTDBADeposit] [[0, 1, 2], [3, 4]])

/-- A function that creates a token. -/
def createFunc : ByteStr :=
  function 0 [] [.amount, .amount, .shortText] (listOpc [opcTDBNewToken] [[0, 1, 2]])

/-- An amount as an entry. -/
def amount (v : Int64) : DataEntry := ⟨Longs.toByteArray v, .amount⟩

/-- An empty text. -/
def text : DataEntry := ⟨[0, 0], .shortText⟩

/-- The data of a token with the maximum 100 whose supply is all issued. -/
def issueData : List DataEntry := [amount 100, amount 1, text, ⟨owner.bytes, .address⟩, amount 100]

/-- The data of a token with the maximum zero. -/
def createData : List DataEntry := [amount 0, amount 1, text]

/-- A function of the contract run on a state. -/
def contextOf (s : StateView) (opcFunc : ByteStr) : ExecutionContext where
  signers := []
  state := s
  height := 1
  transaction := .genesis ⟨owner, 0, 0, 0, by decide⟩
  contractId := contractId
  opcFunc := opcFunc
  stateVar := []
  description := []

/-- The effect of one more token on a state. -/
def created (s : StateView) : OpcDiff :=
  let tokenID := contractId.tokenId (s.contractTokens contractId.bytes)
  { tokenDB := (((∅ : Dict ByteStr ByteStr).insert (tokenKey tokenID .max) (amount 0).bytes).insert
      (tokenKey tokenID .unity) (amount 1).bytes).insert (tokenKey tokenID .desc) text.bytes
    contractTokens := Finmap.singleton contractId.bytes 1
    tokenAccountBalance := Finmap.singleton (tokenKey tokenID .total) 0 }

/-- Creating a token succeeds in every context of the contract. -/
theorem newToken_created {context : ExecutionContext} (h : context.contractId = contractId) :
    TDBOpcDiff.newToken context (amount 0) (amount 1) text = .ok (created context.state) := by
  have hmax : Longs.fromByteArray (amount 0).data = .ok 0 := Longs.fromByteArray_toByteArray 0
  have hunity : Longs.fromByteArray (amount 1).data = .ok 1 := Longs.fromByteArray_toByteArray 1
  have htypes : ¬ ((amount 0).dataType ≠ .amount ∨ (amount 1).dataType ≠ .amount ∨
      text.dataType ≠ .shortText) := by decide
  rw [TDBOpcDiff.newToken, if_neg htypes, hmax, ok_bind, if_neg (by decide), hunity, ok_bind,
    if_neg (by decide)]
  dsimp only
  rw [tokenIdOf_toByteArray, ok_bind, h, created]

/-- The bytes of the creating function are read as one line that makes a token of its three
arguments. -/
theorem fromBytes_createFunc :
    OpcFuncDiffer.fromBytes createFunc = .ok (0, 0, [], [3, 3, 5], [[5, 1, 0, 1, 2]]) := by
  decide +kernel

/-- The creating function creates its token in every state. -/
theorem apply_createFunc (s : StateView) :
    OpcFuncDiffer.apply (contextOf s createFunc) createData = .ok (created s) := by
  have hsame : created (OpcFuncDiffer.stateSoFar (contextOf s createFunc) OpcDiff.empty)
      = created s := by
    have htokens : (OpcFuncDiffer.stateSoFar (contextOf s createFunc) OpcDiff.empty).contractTokens
        contractId.bytes = s.contractTokens contractId.bytes := Int32.add_zero _
    rw [created, htokens, created]
  have hstep : OpcFuncDiffer.step (contextOf s createFunc) (OpcDiff.empty, createData)
      [5, 1, 0, 1, 2] = .ok (created s, createData) := by
    have hnew := @newToken_created { contextOf s createFunc with
      state := OpcFuncDiffer.stateSoFar (contextOf s createFunc) OpcDiff.empty } rfl
    rw [hsame] at hnew
    change (keepingData createData (TDBOpcDiff.newToken _ _ _ _) >>= _) = _
    rw [hnew]
    change Except.ok (OpcDiff.empty.combine (created s), createData) = _
    rw [OpcDiff.empty_combine]
  rw [OpcFuncDiffer.apply, show (contextOf s createFunc).opcFunc = createFunc from rfl,
    fromBytes_createFunc]
  change (if _ then _ else if _ then _ else _) = _
  rw [if_neg (by decide), if_neg (by decide), List.foldlM_cons, hstep]
  rfl

/-- The arguments of the creating function are valid. -/
theorem createData_valid : ValidData createData := by
  decide +kernel

/-- The state after one more token. -/
def create (s : StateView) : StateView :=
  CompositeStateReader.view s ((created s).asBlockDiff 1 (contextOf s createFunc).transaction)

/-- A run can create one more token. -/
theorem create_runs {s : StateView} (h : FunctionRuns (fun _ => True) start s) :
    FunctionRuns (fun _ => True) start (create s) :=
  .run h (contextOf s createFunc) rfl trivial createData createData_valid (created s)
    (apply_createFunc s)

/-- A created token is counted, in a word of 32 bits. -/
theorem contractTokens_create (s : StateView) :
    (create s).contractTokens contractId.bytes = s.contractTokens contractId.bytes + 1 := by
  change _ + ((Finmap.singleton contractId.bytes 1 : Dict ByteStr Int32).lookup _).getD 0 = _
  rw [Dict.lookup_singleton, if_pos rfl]
  rfl

/-- One more token has no supply, and the others keep theirs. -/
theorem total_create (s : StateView) : (create s).tokens.total contractId 0
    = s.tokens.total contractId 0 := by
  change (safeSum (((Finmap.singleton _ 0 : Dict ByteStr Int64).lookup _).getD 0) _).toInt = _
  rw [Dict.lookup_singleton]
  split <;> rw [Option.getD, zero_safeSum] <;> rfl

/-- `k` more tokens. -/
theorem create_many {s : StateView} (h : FunctionRuns (fun _ => True) start s) (k : Nat) :
    ∃ s', FunctionRuns (fun _ => True) start s' ∧
      s'.contractTokens contractId.bytes = s.contractTokens contractId.bytes + Int32.ofNat k ∧
      s'.tokens.total contractId 0 = s.tokens.total contractId 0 := by
  induction k with
  | zero => exact ⟨s, h, (Int32.add_zero _).symm, rfl⟩
  | succ k ih =>
      obtain ⟨s', hs', hcount, htotal⟩ := ih
      refine ⟨create s', create_runs hs', ?_, (total_create s').trans htotal⟩
      rw [contractTokens_create, hcount, Int32.ofNat_add, Int32.add_assoc]
      rfl

/-- The effect of creating the first token and issuing all of it. -/
def issued : OpcDiff :=
  okOr (OpcFuncDiffer.apply (contextOf start issueFunc) issueData) OpcDiff.empty

/-- The state after the first token. -/
def afterIssue : StateView :=
  CompositeStateReader.view start (issued.asBlockDiff 1 (contextOf start issueFunc).transaction)

/-- The call of `issueFunc` runs on well-formed data with room to spare, and leaves one token with
a total of 100. -/
theorem issue_evaluates :
    (OpcFuncDiffer.apply (contextOf start issueFunc) issueData).isOk = true ∧
      ValidData issueData ∧ HasRoom (contextOf start issueFunc) ∧
      afterIssue.contractTokens contractId.bytes = 1 ∧
      afterIssue.tokens.total contractId 0 = 100 := by
  decide +kernel

/-- The issuing function issues its amount of the new token. -/
theorem apply_issueFunc :
    OpcFuncDiffer.apply (contextOf start issueFunc) issueData = .ok issued :=
  eq_ok_okOr issue_evaluates.1

/-- The state after the issue is reached by two functions. -/
theorem afterIssue_runs : FunctionRuns (fun _ => True) start afterIssue :=
  .run .start (contextOf start issueFunc) rfl trivial issueData issue_evaluates.2.1 issued
    apply_issueFunc

/-- The law holds after the first token. -/
theorem afterIssue_lawful : afterIssue.tokens.Lawful :=
  lawful_of_functionRuns start_blank
    (.run .start (contextOf start issueFunc) rfl issue_evaluates.2.2.1 issueData
      issue_evaluates.2.1 issued apply_issueFunc)

/-- After the issue the contract has one token. -/
theorem contractTokens_afterIssue : afterIssue.contractTokens contractId.bytes = 1 :=
  issue_evaluates.2.2.2.1

/-- After the issue the total of the token is the issued amount. -/
theorem total_afterIssue : afterIssue.tokens.total contractId 0 = 100 :=
  issue_evaluates.2.2.2.2

/-- After `2 ^ 32` more tokens the count is where it was, and the first token has a new maximum
below its total. -/
theorem not_lawful : ∃ s, FunctionRuns (fun _ => True) start s ∧ ¬ s.tokens.Lawful := by
  obtain ⟨s, hs, hcount, htotal⟩ := create_many afterIssue_runs 4294967295
  rw [contractTokens_afterIssue] at hcount
  rw [total_afterIssue] at htotal
  have hzero : s.contractTokens contractId.bytes = 0 := hcount.trans (by decide)
  refine ⟨create s, create_runs hs, fun hlaw => ?_⟩
  obtain ⟨-, -, -, e, m, he, hm, hle⟩ := hlaw contractId 0 (by decide) (by
    change 0 < (create s).contractTokens contractId.bytes
    rw [contractTokens_create, hzero]
    decide)
  have hlookup : (created s).changes.tokenDB.lookup (tokenKey (contractId.tokenId 0) .max)
      = some (amount 0).bytes := by
    simp [created, OpcDiff.changes, hzero, tokenKey_inj]
  have hread : DataEntry.fromBytes (amount 0).bytes = .ok (amount 0) := by decide +kernel
  have hinfo : (create s).tokenInfo (tokenKey (contractId.tokenId 0) .max)
      = some <$> explicitGet (DataEntry.fromBytes (amount 0).bytes) := by
    simp only [create, CompositeStateReader.view, OpcDiff.asBlockDiff, Diff.asBlockDiff,
      OpcDiff.asTransactionDiff, Diff.apply, hlookup]
  rw [hread] at hinfo
  replace he := hinfo.symm.trans he
  obtain rfl := Option.some.inj (Except.ok.inj he)
  obtain rfl := Except.ok.inj ((Longs.fromByteArray_toByteArray 0).symm.trans hm)
  rw [total_create, htotal] at hle
  exact absurd hle (by decide)

end TokenOverflow

end Vsys
