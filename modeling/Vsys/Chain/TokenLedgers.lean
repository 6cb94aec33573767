import Vsys.Chain.Makers
import Vsys.Contract.TokenCalls

/-!
# The token of a registered contract

A registration starts a token, and the calls of its contract change it as far as they are allowed:
that is a ledger of the chain's transactions alone.  Every state of the chain stores the token this
ledger comes to, and a call succeeds exactly if the ledger allows it.
-/

namespace Vsys

open Lib CompositeStateReader ContractPermitted OpcFuncDiffer
open scoped Ledger

section Platform

variable [Platform]

/-- The function a permitted contract has at an index. -/
def Contract.funIdOf (contract : Contract) (funcIdx : Int16) : Option FunId :=
  if 0 ≤ funcIdx then (funIds contract)[funcIdx.toInt.toNat]? else none

/-- The call of a contract's token that a transaction is, with who makes it. -/
def ProcessedTransaction.tokenCall (c : ContractAccount) (contract : Contract)
    (p : ProcessedTransaction) : Option (Address × Token.Call Address) :=
  match p.transaction with
  | .executeContractFunction exe =>
      if exe.contractId = c then do
        let sender ← exe.proofs.headPublicKey.toOption
        let call ← callOf sender.toAddress (← contract.funIdOf exe.funcIdx) exe.data
        some (sender.toAddress, call)
      else none
  | _ => none

/-- The token of a maker with the data of a registration. -/
def startOf (maker : Address) : List DataEntry → Option (Token Address)
  | [max, unity, _] => do
      some (Token.start maker (← max.amount?).toInt (← unity.amount?).toInt)
  | _ => none

/-- The token a registration starts. -/
def RegisterContractTransaction.token (tx : RegisterContractTransaction) :
    Option (Token Address) := do
  startOf (← tx.proofs.headPublicKey.toOption).toAddress tx.data

/-- What a transaction does to the token of a registered contract. -/
def tokenStep (c : ContractAccount) (tx : RegisterContractTransaction.Checked)
    (t : Option (Token Address)) (p : ProcessedTransaction) : Option (Token Address) :=
  if (p.registrationOf c).isSome then tx.token
  else match p.tokenCall c tx.contract with
    | some (caller, call) => t.map fun t => t.call wordLimit caller call
    | none => t

/-- The token after some transactions. -/
def tokenAfter (c : ContractAccount) (tx : RegisterContractTransaction.Checked)
    (done : List ProcessedTransaction) : Option (Token Address) :=
  done.foldl (tokenStep c tx) none

section View

variable {s : StateView} {e : Diff} {c : ContractAccount} {t t' : Token Address} {a b r : Address}
  {x : Int64} {k : ByteStr} {n : Int}

/-- An amount after a change that fits. -/
theorem toInt_tokenAccountBalance_view (hx : (e.tokenAccountBalance.lookup k).getD 0 = x)
    (hsum : x.toInt + (s.tokenAccountBalance k).toInt = n) (hword : InWord n) :
    ((view s e.asBlockDiff).tokenAccountBalance k).toInt = n := by
  rw [tokenAccountBalance_view, hx, toInt_safeSum (hsum ▸ hword), hsum]

/-- What no call changes: the maker, the maximum, and the number of tokens. -/
theorem StateView.Holds.viewed (hs : s.Holds c t) (hmaker : t'.maker = t.maker)
    (hmax : t'.max = t.max) (hdb : e.contractDB.lookup (stateVarKey c StateVar.maker) = none)
    (htokens : e.contractTokens.lookup c.bytes = none)
    (hinfo : e.tokenDB.lookup (tokenKey (c.tokenId 0) .max) = none)
    (hissuer : (view s e.asBlockDiff).VariableIs c StateVar.issuer t'.issuer)
    (hunity : ∃ u : Int64, u.toInt = t'.unity ∧ (view s e.asBlockDiff).tokenInfo
      (tokenKey (c.tokenId 0) .unity) = .ok (some ⟨Longs.toByteArray u, .amount⟩))
    (htotal : (view s e.asBlockDiff).tokens.total c 0 = t'.total)
    (hbalance : ∀ a, (view s e.asBlockDiff).tokens.balance c 0 a = t'.balance a) :
    (view s e.asBlockDiff).Holds c t' where
  maker := hmaker ▸ (contractInfo_view_of_none hdb).trans hs.maker
  issuer := hissuer
  count := by
    have hcount : (view s e.asBlockDiff).contractTokens c.bytes
        = s.contractTokens c.bytes + (e.contractTokens.lookup c.bytes).getD 0 := rfl
    rw [hcount, htokens, hs.count]
    rfl
  max := by
    obtain ⟨m, hm, hread⟩ := hs.max
    exact ⟨m, hm.trans hmax.symm, (tokenInfo_view_of_none hinfo).trans hread⟩
  unity := hunity
  total := htotal
  balance := hbalance

/-- What a change leaves that does not touch it. -/
theorem StateView.Holds.issuer_view (hs : s.Holds c t)
    (h : e.contractDB.lookup (stateVarKey c StateVar.issuer) = none) :
    (view s e.asBlockDiff).VariableIs c StateVar.issuer t.issuer :=
  (contractInfo_view_of_none h).trans hs.issuer

/-- A diff that does not write the unity leaves it. -/
theorem StateView.Holds.unity_view (hs : s.Holds c t)
    (h : e.tokenDB.lookup (tokenKey (c.tokenId 0) .unity) = none) :
    ∃ u : Int64, u.toInt = t.unity ∧ (view s e.asBlockDiff).tokenInfo
      (tokenKey (c.tokenId 0) .unity) = .ok (some ⟨Longs.toByteArray u, .amount⟩) := by
  obtain ⟨u, hu, hread⟩ := hs.unity
  exact ⟨u, hu, (tokenInfo_view_of_none h).trans hread⟩

/-- A diff that does not change the total leaves it. -/
theorem StateView.Holds.total_view (hs : s.Holds c t)
    (h : e.tokenAccountBalance.lookup (tokenKey (c.tokenId 0) .total) = none) :
    (view s e.asBlockDiff).tokens.total c 0 = t.total :=
  (congrArg Int64.toInt (tokenAccountBalance_view_of_none h)).trans hs.total

/-- A diff that does not change a balance leaves it. -/
theorem StateView.Holds.balance_view (hs : s.Holds c t)
    (h : e.tokenAccountBalance.lookup (balanceKey (c.tokenId 0) a.bytes) = none) :
    (view s e.asBlockDiff).tokens.balance c 0 a = t.balance a :=
  (congrArg Int64.toInt (tokenAccountBalance_view_of_none h)).trans (hs.balance a)

/-- The amounts after a change of the supply. -/
theorem StateView.Holds.total_supply (hs : s.Holds c t)
    (he : e.tokenAccountBalance = (TDBAOpcDiff.supplyDiff c a x).tokenAccountBalance)
    (hword : InWord (t.total + x.toInt)) :
    (view s e.asBlockDiff).tokens.total c 0 = t.total + x.toInt := by
  have htotal : (s.tokenAccountBalance (tokenKey (c.tokenId 0) .total)).toInt = t.total := hs.total
  refine toInt_tokenAccountBalance_view (x := x) ?_ (by rw [htotal, Int.add_comm]) hword
  rw [he, TDBAOpcDiff.supplyDiff, Dict.lookup_insert_eq, if_neg tokenKey_ne_balanceKey,
    Dict.lookup_insert_eq, if_pos rfl, Option.getD_some]

/-- A diff of the supply credits one account, and the sums of the words are those of the ledger. -/
theorem StateView.Holds.balance_supply (hs : s.Holds c t)
    (he : e.tokenAccountBalance = (TDBAOpcDiff.supplyDiff c a x).tokenAccountBalance)
    (hword : InWord (Token.credit t.balance a x.toInt b)) :
    (view s e.asBlockDiff).tokens.balance c 0 b = Token.credit t.balance a x.toInt b := by
  have hbalance : (s.tokenAccountBalance (balanceKey (c.tokenId 0) b.bytes)).toInt = t.balance b :=
    hs.balance b
  refine toInt_tokenAccountBalance_view (x := if b = a then x else 0) ?_ ?_ hword
  · rw [he, TDBAOpcDiff.supplyDiff, Dict.lookup_insert_eq, Dict.lookup_insert_eq,
      if_neg tokenKey_ne_balanceKey.symm]
    by_cases hb : b = a
    · rw [if_pos (hb ▸ rfl), if_pos hb, Option.getD_some]
    · rw [if_neg fun hkey => hb (balanceKey_inj.mp hkey).2.2, if_neg hb, Finmap.lookup_empty,
        Option.getD_none]
  · rw [hbalance, Token.credit]
    split
    · exact Int.add_comm _ _
    · rw [Int64.toInt_zero]
      exact Int.add_comm _ _

/-- The balances after a transfer. -/
theorem StateView.Holds.balance_transfer (hs : s.Holds c t)
    (he : e.tokenAccountBalance = (TDBAOpcDiff.transferDiff c a r x).tokenAccountBalance)
    (hneg : (-x).toInt = -x.toInt)
    (hword : InWord (Token.credit (Token.credit t.balance a (-x.toInt)) r x.toInt b)) :
    (view s e.asBlockDiff).tokens.balance c 0 b
      = Token.credit (Token.credit t.balance a (-x.toInt)) r x.toInt b := by
  have hbalance : (s.tokenAccountBalance (balanceKey (c.tokenId 0) b.bytes)).toInt = t.balance b :=
    hs.balance b
  have hlookup : (e.tokenAccountBalance.lookup (balanceKey (c.tokenId 0) b.bytes)).getD 0
      = if a = r then 0 else if b = r then x else if b = a then -x else 0 := by
    have hkey (a' : Address) :
        balanceKey (c.tokenId 0) b.bytes = balanceKey (c.tokenId 0) a'.bytes ↔ b = a' := by
      rw [balanceKey_inj]
      simp
    -- A transfer to the sender is empty; the source does not write its two entries over each
    -- other.
    rw [he, TDBAOpcDiff.transferDiff]
    by_cases hsame : a = r
    · rw [if_pos hsame, if_pos hsame, Finmap.lookup_empty, Option.getD_none]
    · rw [if_neg hsame, if_neg hsame, Dict.lookup_insert_eq, Dict.lookup_insert_eq,
        Finmap.lookup_empty]
      simp only [hkey]
      split
      · rfl
      · split
        · rfl
        · rfl
  refine toInt_tokenAccountBalance_view hlookup ?_ hword
  rw [hbalance]
  simp only [Token.credit]
  by_cases hsame : a = r
  · subst hsame
    rw [if_pos rfl, Int64.toInt_zero]
    split
    · omega
    · omega
  · rw [if_neg hsame]
    by_cases hr : b = r
    · rw [if_pos hr, if_pos hr, if_neg fun ha => hsame (ha.symm.trans hr)]
      omega
    · rw [if_neg hr, if_neg hr]
      split
      · rw [hneg]
        omega
      · rw [Int64.toInt_zero]
        omega

/-- An amount that is set. -/
theorem tokenInfo_view_of_amount
    (h : e.tokenDB.lookup k = some (⟨Longs.toByteArray x, .amount⟩ : DataEntry).bytes)
    (hx : 0 ≤ x) :
    (view s e.asBlockDiff).tokenInfo k = .ok (some ⟨Longs.toByteArray x, .amount⟩) := by
  have hread := DataEntry.fromBytes_bytes (DataEntry.valid_amount hx) (by simp)
  have hdb : e.asBlockDiff.txsDiff.tokenDB.lookup k
      = some (⟨Longs.toByteArray x, .amount⟩ : DataEntry).bytes := h
  simp only [view, hdb, hread]
  rfl

/-- A change of amounts alone. -/
theorem StateView.Holds.amounts {total : Int} {balance : Address → Int} (hs : s.Holds c t)
    (hdb : e.contractDB = ∅) (htokens : e.contractTokens = ∅) (hinfo : e.tokenDB = ∅)
    (htotal : (view s e.asBlockDiff).tokens.total c 0 = total)
    (hbalance : ∀ a, (view s e.asBlockDiff).tokens.balance c 0 a = balance a) :
    (view s e.asBlockDiff).Holds c { t with total := total, balance := balance } :=
  hs.viewed rfl rfl (hdb ▸ Finmap.lookup_empty _) (htokens ▸ Finmap.lookup_empty _)
    (hinfo ▸ Finmap.lookup_empty _) (hs.issuer_view (hdb ▸ Finmap.lookup_empty _))
    (hs.unity_view (hinfo ▸ Finmap.lookup_empty _)) htotal hbalance

/-- The amounts of a token fit. -/
theorem StateView.Holds.inWord (hs : s.Holds c t) (ht : t'.Sound) (hmax : t'.max = t.max) :
    InWord t'.total ∧ ∀ a, InWord (t'.balance a) := by
  have hlimit := hs.max_le
  have hle := ht.le_max
  have htotal := ht.total_nonneg
  have hword : InWord t'.total := by
    unfold wordLimit at hlimit
    unfold InWord
    omega
  refine ⟨hword, fun a => ?_⟩
  have hnonneg := ht.nonneg a
  have hbalance := ht.balance_le a
  unfold InWord at hword ⊢
  omega

/-- A call that is allowed changes what is stored as it changes the token. -/
theorem StateView.Holds.perform {caller : Address} {call : Token.Call Address} (hs : s.Holds c t)
    (ht : t.Sound) (hallowed : t.Allowed wordLimit caller call)
    (hdb : e.contractDB = (diffOf c t call).contractDB)
    (htokens : e.contractTokens = (diffOf c t call).contractTokens)
    (hinfo : e.tokenDB = (diffOf c t call).tokenDB)
    (hamounts : e.tokenAccountBalance = (diffOf c t call).tokenAccountBalance) :
    (view s e.asBlockDiff).Holds c (t.perform call) := by
  have hsound := ht.perform hallowed
  have hlimit := hs.max_le
  unfold wordLimit at hlimit
  -- Each call writes what its diff says. The amounts are those of the ledger as long as they fit
  -- a word, which the soundness of the token after the call bounds.
  cases call with
  | supersede newIssuer =>
      have hmaker : e.contractDB.lookup (stateVarKey c StateVar.maker) = none := by
        rw [hdb, diffOf, CDBVOpcDiff.setDiff, Dict.lookup_singleton, if_neg]
        exact fun hkey => absurd (stateVarKey_inj.mp hkey).2 (by decide)
      have hissuer : e.contractDB.lookup (stateVarKey c StateVar.issuer)
          = some (⟨newIssuer.bytes, .address⟩ : DataEntry).bytes := by
        rw [hdb]
        exact Finmap.lookup_singleton_eq
      have hnoInfo (k : ByteStr) : e.tokenDB.lookup k = none := hinfo ▸ Finmap.lookup_empty k
      have hnoAmount (k : ByteStr) : e.tokenAccountBalance.lookup k = none :=
        hamounts ▸ Finmap.lookup_empty k
      exact hs.viewed rfl rfl hmaker (htokens ▸ Finmap.lookup_empty _) (hnoInfo _)
        (StateView.variableIs_view hissuer) (hs.unity_view (hnoInfo _))
        (hs.total_view (hnoAmount _)) fun a => hs.balance_view (hnoAmount _)
  | issue amount =>
      obtain ⟨-, hnonneg, hmax⟩ := hallowed
      have htotal := ht.total_nonneg
      have hx : (Int64.ofInt amount).toInt = amount := toInt_ofInt_inWord (by
        unfold InWord
        omega)
      obtain ⟨hword, hwords⟩ := hs.inWord hsound rfl
      simp only [Token.perform] at hword hwords ⊢
      rw [← hx] at hword hwords ⊢
      exact hs.amounts hdb htokens hinfo (hs.total_supply hamounts hword)
        fun a => hs.balance_supply hamounts (hwords a)
  | destroy amount =>
      obtain ⟨-, hnonneg, hle⟩ := hallowed
      have hissuer := ht.balance_le t.issuer
      have hmax := ht.le_max
      have hword : InWord amount := by
        unfold InWord
        omega
      have hx : (-Int64.ofInt amount).toInt = -amount := by
        rw [toInt_neg_of_nonneg (Int64.le_iff_toInt_le.mpr (by
          rw [Int64.toInt_zero, toInt_ofInt_inWord hword]
          exact hnonneg)), toInt_ofInt_inWord hword]
      obtain ⟨hword, hwords⟩ := hs.inWord hsound rfl
      simp only [Token.perform, Int.sub_eq_add_neg] at hword hwords ⊢
      rw [← hx] at hword hwords ⊢
      exact hs.amounts hdb htokens hinfo (hs.total_supply hamounts hword)
        fun a => hs.balance_supply hamounts (hwords a)
  | split newUnity =>
      obtain ⟨-, hpos, hle⟩ := hallowed
      have hu : (Int64.ofInt newUnity).toInt = newUnity := toInt_ofInt_inWord (by
        unfold wordLimit at hle
        unfold InWord
        omega)
      have hnoVar (k : ByteStr) : e.contractDB.lookup k = none := hdb ▸ Finmap.lookup_empty k
      have hnoAmount (k : ByteStr) : e.tokenAccountBalance.lookup k = none :=
        hamounts ▸ Finmap.lookup_empty k
      have hmax : e.tokenDB.lookup (tokenKey (c.tokenId 0) .max) = none := by
        rw [hinfo, diffOf, TDBOpcDiff.splitDiff, Dict.lookup_singleton, if_neg]
        intro hkey
        cases (tokenKey_inj.mp hkey).2.2
      have hunity : e.tokenDB.lookup (tokenKey (c.tokenId 0) .unity)
          = some (⟨Longs.toByteArray (Int64.ofInt newUnity), .amount⟩ : DataEntry).bytes := by
        rw [hinfo]
        exact Finmap.lookup_singleton_eq
      exact hs.viewed rfl rfl (hnoVar _) (htokens ▸ Finmap.lookup_empty _) hmax
        (hs.issuer_view (hnoVar _))
        ⟨_, hu, tokenInfo_view_of_amount hunity (Int64.le_iff_toInt_le.mpr (by
          rw [Int64.toInt_zero, hu]
          omega))⟩
        (hs.total_view (hnoAmount _)) fun a => hs.balance_view (hnoAmount _)
  | transfer sender recipient amount =>
      obtain ⟨-, hnonneg, hle, -⟩ := hallowed
      have hsender := ht.balance_le sender
      have hmax := ht.le_max
      have hx : (Int64.ofInt amount).toInt = amount := toInt_ofInt_inWord (by
        unfold InWord
        omega)
      have hneg : (-Int64.ofInt amount).toInt = -(Int64.ofInt amount).toInt :=
        toInt_neg_of_nonneg (Int64.le_iff_toInt_le.mpr (by
          rw [Int64.toInt_zero, hx]
          exact hnonneg))
      obtain ⟨-, hwords⟩ := hs.inWord hsound rfl
      simp only [Token.perform] at hwords ⊢
      rw [← hx] at hwords ⊢
      have htotal : (view s e.asBlockDiff).tokens.total c 0 = t.total := by
        refine hs.total_view ?_
        rw [hamounts, diffOf, TDBAOpcDiff.transferDiff]
        split
        · exact Finmap.lookup_empty _
        · rw [Dict.lookup_insert_eq, if_neg tokenKey_ne_balanceKey, Dict.lookup_insert_eq,
            if_neg tokenKey_ne_balanceKey, Finmap.lookup_empty]
      exact hs.amounts hdb htokens hinfo htotal
        fun a => hs.balance_transfer hamounts hneg (hwords a)

section Start

variable {max unity desc : DataEntry} {i : Int32}

/-- The trigger writes its caller as the issuer and as the maker. -/
theorem lookup_startDiff_variable {var : Byte}
    (hvar : var = StateVar.issuer ∨ var = StateVar.maker) :
    (startDiff c i a max unity desc).contractDB.lookup (stateVarKey c var)
      = some (⟨a.bytes, .address⟩ : DataEntry).bytes := by
  have hlookup : (startDiff c i a max unity desc).contractDB.lookup (stateVarKey c var)
      = ((CDBVOpcDiff.setDiff c StateVar.maker a).contractDB.lookup (stateVarKey c var)).or
        ((CDBVOpcDiff.setDiff c StateVar.issuer a).contractDB.lookup (stateVarKey c var)) := by
    simp [startDiff, variablesDiff, OpcDiff.combine, TDBOpcDiff.newTokenDiff]
  rw [hlookup]
  simp only [CDBVOpcDiff.setDiff, Dict.lookup_singleton]
  obtain rfl | rfl := hvar
  · rw [if_pos rfl]
    split
    · rfl
    · rfl
  · rw [if_pos rfl]
    rfl

/-- The trigger counts one token for the contract. -/
theorem contractTokens_startDiff :
    (startDiff c i a max unity desc).contractTokens = Finmap.singleton c.bytes 1 := by
  simp [startDiff, variablesDiff, OpcDiff.combine, TDBOpcDiff.newTokenDiff, CDBVOpcDiff.setDiff]

/-- The trigger writes the maximum, the unity and the description of the token. -/
theorem tokenDB_startDiff : (startDiff c i a max unity desc).tokenDB
    = (((∅ : Dict ByteStr ByteStr).insert (tokenKey (c.tokenId i) .max) max.bytes).insert
        (tokenKey (c.tokenId i) .unity) unity.bytes).insert (tokenKey (c.tokenId i) .desc)
          desc.bytes := by
  simp [startDiff, variablesDiff, OpcDiff.combine, TDBOpcDiff.newTokenDiff, CDBVOpcDiff.setDiff]

/-- After the trigger nobody has any of the token, and its total is zero. -/
theorem getD_tokenAccountBalance_startDiff {k : ByteStr} :
    ((startDiff c i a max unity desc).tokenAccountBalance.lookup k).getD 0 = 0 := by
  have hbalance : (startDiff c i a max unity desc).tokenAccountBalance
      = Finmap.singleton (tokenKey (c.tokenId i) .total) 0 := by
    simp [startDiff, variablesDiff, OpcDiff.combine, TDBOpcDiff.newTokenDiff, CDBVOpcDiff.setDiff]
  rw [hbalance, Dict.lookup_singleton]
  split
  · rfl
  · rfl

/-- What a registration leaves, if it is the first of its contract. -/
theorem StateView.holds_start {m u : Int64} {df : OpcDiff}
    (hdf : df = startDiff c 0 a ⟨Longs.toByteArray m, .amount⟩ ⟨Longs.toByteArray u, .amount⟩ desc)
    (hamounts : ∀ rest, s.tokenAccountBalance (c.tokenId 0 ++ rest) = 0)
    (hcount : s.contractTokens c.bytes = 0) (hmax : 0 ≤ m.toInt) (hunity : 0 < u.toInt)
    (hdb : e.contractDB = df.contractDB) (htokens : e.contractTokens = df.contractTokens)
    (hinfo : e.tokenDB = df.tokenDB) (hbalance : e.tokenAccountBalance = df.tokenAccountBalance) :
    (view s e.asBlockDiff).Holds c (Token.start a m.toInt u.toInt) := by
  subst hdf
  have hzero (rest : ByteStr) :
      ((view s e.asBlockDiff).tokenAccountBalance (c.tokenId 0 ++ rest)).toInt = 0 := by
    refine toInt_tokenAccountBalance_view (hbalance ▸ getD_tokenAccountBalance_startDiff) ?_
      (by decide)
    rw [hamounts]
    rfl
  refine ⟨StateView.variableIs_view (hdb ▸ lookup_startDiff_variable (.inr rfl)),
    StateView.variableIs_view (hdb ▸ lookup_startDiff_variable (.inl rfl)), ?_,
    ⟨m, rfl, tokenInfo_view_of_amount ?_ (Int64.le_iff_toInt_le.mpr hmax)⟩,
    ⟨u, rfl, tokenInfo_view_of_amount ?_ (Int64.le_iff_toInt_le.mpr hunity.le)⟩,
    hzero _, fun a => hzero _⟩
  · have hcounted : (view s e.asBlockDiff).contractTokens c.bytes
        = s.contractTokens c.bytes + (e.contractTokens.lookup c.bytes).getD 0 := rfl
    rw [hcounted, htokens, contractTokens_startDiff, Finmap.lookup_singleton_eq, hcount]
    rfl
  · rw [hinfo, tokenDB_startDiff]
    simp [tokenKey_inj]
  · rw [hinfo, tokenDB_startDiff]
    simp [tokenKey_inj]

end Start

end View

section Registered

variable {fs : FunctionalitySettings} {s : StateView} {e : Diff} {c : ContractAccount}
  {p : ProcessedTransaction} {t : Token Address} {contract : Contract}

/-- A contract of which there is nothing yet. -/
structure StateView.Unregistered (s : StateView) (c : ContractAccount) : Prop where
  content : s.contractContent c.bytes = .ok none
  count : s.contractTokens c.bytes = 0
  amounts : ∀ i rest, s.tokenAccountBalance (c.tokenId i ++ rest) = 0

/-- A diff that spares a contract leaves it unregistered. -/
theorem StateView.Unregistered.spared (h : s.Unregistered c) (he : e.toChanges.Spares c) :
    (view s e.asBlockDiff).Unregistered c where
  content := by
    have hcontracts : e.asBlockDiff.txsDiff.contracts.lookup c.bytes = none := he.contracts
    simp only [view, hcontracts, h.content]
  count := by
    have hcount : (view s e.asBlockDiff).contractTokens c.bytes
        = s.contractTokens c.bytes + (e.contractTokens.lookup c.bytes).getD 0 := rfl
    rw [hcount, he.contractTokens, h.count]
    rfl
  amounts := fun i rest =>
    (tokenAccountBalance_view_of_none (he.tokenAccountBalance i rest)).trans (h.amounts i rest)

/-- Nothing comes of a contract but by its registration. -/
theorem StateView.Unregistered.step (h : s.Unregistered c) (hp : Accepted fs s p e)
    (hreg : p.registrationOf c = none) : (view s e.asBlockDiff).Unregistered c := by
  obtain ⟨-, ⟨ch, related, heffect, rfl⟩, -⟩ := hp.applies
  have hstatus : ch.txStatus = p.status := hp.status
  obtain hspares | ⟨tx, ht, hsuccess, hc⟩ |
    ⟨exe, sender, context, df, -, ⟨hc, -⟩, hcontext, -, -⟩ := heffect.contract_cases c
  · exact h.spared hspares
  · have hsome := ProcessedTransaction.registrationOf_eq_some_iff.mpr
      ⟨ht, hstatus.symm.trans hsuccess, hc⟩
    cases hreg.symm.trans hsome
  · obtain ⟨_, _, _, _, _, -, hfound, -⟩ := ExecutionContext.fromExeConTx_eq_ok hcontext
    rw [hc, h.content] at hfound
    cases hfound

omit [Platform] in
/-- The functions of a permitted contract are the known ones in their order. -/
theorem descriptor_getElem? (hc : contract.IsPermitted) (n : Nat) :
    contract.descriptor[n]? = ((funIds contract)[n]?).map fun id => id.func (Int16.ofNat n) := by
  rw [descriptor_eq hc, List.getElem?_mapIdx]

section Execution

variable {height : Nat} {exe : ExecuteContractFunctionTransaction.Checked}
  {sender : PublicKeyAccount} {df : OpcDiff} {registered : Nat} {txId : ByteStr}

/-- The context of a call is made of the function at its index, of the signer and of the state. -/
theorem ExecutionContext.fromExeConTx_eq {opcFunc : ByteStr}
    (hsender : exe.proofs.headPublicKey = .ok sender)
    (hcontent : s.contractContent exe.contractId.bytes = .ok (some (registered, txId, contract)))
    (hidx : 0 ≤ exe.funcIdx)
    (hfunc : contract.descriptor[exe.funcIdx.toInt.toNat]? = some opcFunc) :
    fromExeConTx s height exe = .ok
      { signers := [sender]
        state := s
        height := height
        transaction := .executeContractFunction exe
        contractId := exe.contractId
        opcFunc := opcFunc
        stateVar := contract.stateVar
        description := exe.attachment } := by
  simp only [fromExeConTx, signersOf_of_headPublicKey hsender, ok_bind, hcontent, if_pos hidx,
    hfunc]

/-- A call of a registered contract runs with success exactly if the token allows it. -/
theorem execution_eq_ok_iff
    (hcontent : s.contractContent exe.contractId.bytes = .ok (some (registered, txId, contract)))
    (hpermitted : contract.IsPermitted) (hs : s.Holds exe.contractId t) (ht : t.Sound)
    (hsender : exe.proofs.headPublicKey = .ok sender) :
    (ExecutionContext.fromExeConTx s height exe >>= fun context =>
        OpcFuncDiffer.apply context exe.data) = .ok df ↔
      ∃ id call, contract.funIdOf exe.funcIdx = some id ∧
        callOf sender.toAddress id exe.data = some call ∧
        t.Allowed wordLimit sender.toAddress call ∧ df = diffOf exe.contractId t call := by
  have hvars := stateVar_eq hpermitted
  constructor
  · intro h
    obtain ⟨context, hcontext, happly⟩ := bind_eq_ok_iff.mp h
    obtain ⟨_, _, _, contract', opcFunc, -, hfound, hidx, hfunc, -⟩ :=
      ExecutionContext.fromExeConTx_eq_ok hcontext
    obtain ⟨-, hsame⟩ := Prod.mk.inj (Option.some.inj (Except.ok.inj (hcontent.symm.trans hfound)))
    obtain ⟨-, rfl⟩ := Prod.mk.inj hsame
    rw [ExecutionContext.fromExeConTx_eq hsender hcontent hidx hfunc] at hcontext
    obtain rfl := Except.ok.inj hcontext
    rw [descriptor_getElem? hpermitted, Option.map_eq_some_iff] at hfunc
    obtain ⟨id, hid, rfl⟩ := hfunc
    obtain ⟨call, hcall, hallowed, rfl⟩ :=
      (computes hs ht hvars rfl exe.data_valid rfl df).mp happly
    exact ⟨id, call, (if_pos hidx).trans hid, hcall, hallowed, rfl⟩
  · rintro ⟨id, call, hid, hcall, hallowed, rfl⟩
    unfold Contract.funIdOf at hid
    split at hid
    · rename_i hidx
      have hfunc : contract.descriptor[exe.funcIdx.toInt.toNat]?
          = some (id.func (Int16.ofNat exe.funcIdx.toInt.toNat)) := by
        rw [descriptor_getElem? hpermitted, hid]
        rfl
      exact bind_eq_ok_iff.mpr ⟨_, ExecutionContext.fromExeConTx_eq hsender hcontent hidx hfunc,
        (computes hs ht hvars rfl exe.data_valid rfl _).mpr ⟨call, hcall, hallowed, rfl⟩⟩
    · cases hid

/-- What a contract transaction changes says whether its function has run. -/
theorem contractDiff_outcome {tx : Transaction} {fee : Int64}
    {contracts : Dict ByteStr (Nat × ByteStr × Contract × Finset Address)}
    {fromValidationError : ValidationError → TransactionStatus} {outcome : Result OpcDiff}
    (h : contractDiff height tx sender fee contracts fromValidationError outcome = .ok e) :
    (∃ df, outcome = .ok df ∧ e = Diff.apply height tx
        { df.changes with
          portfolios := (feeCharged sender fee).portfolios
          contracts := contracts
          chargedFee := fee } df.relatedAddress) ∨
    (∀ df, outcome ≠ .ok df) ∧ ∃ error, e = Diff.apply height tx
      { feeCharged sender fee with txStatus := fromValidationError error } ∅ := by
  unfold contractDiff at h
  split at h
  · exact .inl ⟨_, rfl, (Except.ok.inj h).symm⟩
  · exact .inr ⟨fun df hdf => (by cases hdf), _, (Except.ok.inj h).symm⟩
  · cases h

/-- An accepted call has the effect of its function with success, or leaves every contract alone
without. -/
theorem Accepted.executed (h : Accepted fs s p e)
    (hexe : p.transaction = .executeContractFunction exe) (c : ContractAccount) :
    ∃ sender, exe.proofs.headPublicKey = .ok sender ∧
      ((∃ df : OpcDiff, (ExecutionContext.fromExeConTx s (s.height + 1) exe >>= fun context =>
          OpcFuncDiffer.apply context exe.data) = .ok df ∧ p.status = .success ∧
          e.contractDB = df.contractDB ∧ e.contractTokens = df.contractTokens ∧
          e.tokenDB = df.tokenDB ∧ e.tokenAccountBalance = df.tokenAccountBalance) ∨
        (∀ df, (ExecutionContext.fromExeConTx s (s.height + 1) exe >>= fun context =>
          OpcFuncDiffer.apply context exe.data) ≠ .ok df) ∧ p.status ≠ .success ∧
          e.toChanges.Spares c) := by
  obtain ⟨prev, timestamp, happly⟩ := h.applied
  have hown := (TransactionDiffer.apply_eq_ok_iff.mp happly).2.1
  rw [hexe] at hown
  have hdiff : ExecuteContractFunctionTransactionDiff.apply s (s.height + 1) exe = .ok e := hown
  unfold ExecuteContractFunctionTransactionDiff.apply at hdiff
  rw [ite_left_eq_ok_iff] at hdiff
  obtain ⟨sender, hsender, hdiff⟩ := bind_eq_ok_iff.mp hdiff.2
  refine ⟨sender, hsender, ?_⟩
  obtain ⟨df, hdf, rfl⟩ | ⟨hnot, error, rfl⟩ := contractDiff_outcome hdiff
  · exact .inl ⟨df, hdf, h.status.symm, rfl, rfl, rfl, rfl⟩
  · refine .inr ⟨hnot, ?_, ?_⟩
    · rw [← h.status]
      exact ExecuteContractFunctionTransactionDiff.fromValidationError_ne_success error
    · exact ⟨Finmap.lookup_empty _, fun _ => Finmap.lookup_empty _, Finmap.lookup_empty _,
        fun _ _ => Finmap.lookup_empty _, fun _ _ => Finmap.lookup_empty _⟩

end Execution

section Steps

omit [Platform] in
/-- A result is some value exactly if it is that value. -/
theorem toOption_eq_some_iff {α : Type*} {r : Result α} {a : α} :
    r.toOption = some a ↔ r = .ok a := by
  cases r with
  | ok b => simp [Except.toOption]
  | error e => simp [Except.toOption]

variable {exe : ExecuteContractFunctionTransaction.Checked}
  {tx : RegisterContractTransaction.Checked} {caller : Address} {call : Token.Call Address}

/-- A transaction is a token call exactly if it calls a known function of the contract with
arguments of the right kind. -/
theorem ProcessedTransaction.tokenCall_eq_some_iff :
    p.tokenCall c contract = some (caller, call) ↔ ∃ exe sender id,
      p.transaction = .executeContractFunction exe ∧ exe.contractId = c ∧
      exe.proofs.headPublicKey = .ok sender ∧ contract.funIdOf exe.funcIdx = some id ∧
      callOf sender.toAddress id exe.data = some call ∧ sender.toAddress = caller := by
  constructor
  · intro h
    unfold ProcessedTransaction.tokenCall at h
    split at h
    · rename_i exe hexe
      split at h
      · rename_i hc
        simp only [Option.bind_eq_bind, Option.bind_eq_some_iff, Option.some.injEq,
          Prod.mk.injEq] at h
        obtain ⟨sender, hsender, id, hid, call', hcall, rfl, rfl⟩ := h
        exact ⟨exe, sender, id, hexe, hc, toOption_eq_some_iff.mp hsender, hid, hcall, rfl⟩
      · cases h
    · cases h
  · rintro ⟨exe, sender, id, hexe, hc, hsender, hid, hcall, rfl⟩
    simp only [ProcessedTransaction.tokenCall, hexe, if_pos hc, toOption_eq_some_iff.mpr hsender,
      hid, Option.bind_eq_bind, Option.bind_some, hcall]

/-- What is not touched keeps its token. -/
theorem StateView.Holds.spared (hs : s.Holds c t) (he : e.toChanges.Spares c) :
    (view s e.asBlockDiff).Holds c t :=
  hs.viewed rfl rfl (he.contractDB _) he.contractTokens (he.tokenDB 0 _)
    (hs.issuer_view (he.contractDB _)) (hs.unity_view (he.tokenDB 0 _))
    (hs.total_view (he.tokenAccountBalance 0 _)) fun _ =>
      hs.balance_view (he.tokenAccountBalance 0 _)

/-- A call of a registered contract is allowed, succeeds and does what it does to the token, or it
is refused, fails and leaves the contract alone. -/
theorem Accepted.outcome {registered : Nat} {txId : ByteStr} (hp : Accepted fs s p e)
    (hexe : p.transaction = .executeContractFunction exe) (hs : s.Holds exe.contractId t)
    (ht : t.Sound)
    (hcontent : s.contractContent exe.contractId.bytes = .ok (some (registered, txId, contract)))
    (hpermitted : contract.IsPermitted) :
    (∃ caller call, p.tokenCall exe.contractId contract = some (caller, call) ∧
      t.Allowed wordLimit caller call ∧ p.status = .success ∧
      (view s e.asBlockDiff).Holds exe.contractId (t.perform call)) ∨
    (∀ caller call, p.tokenCall exe.contractId contract = some (caller, call) →
      ¬ t.Allowed wordLimit caller call) ∧ p.status ≠ .success ∧
      e.toChanges.Spares exe.contractId := by
  obtain ⟨sender, hsender, ⟨df, hrun, hsuccess, hdb, htokens, hinfo, hamounts⟩ |
    ⟨hnot, hfailed, hspares⟩⟩ := hp.executed hexe exe.contractId
  · obtain ⟨id, call, hid, hcall, hallowed, rfl⟩ :=
      (execution_eq_ok_iff hcontent hpermitted hs ht hsender).mp hrun
    exact .inl ⟨sender.toAddress, call, ProcessedTransaction.tokenCall_eq_some_iff.mpr
      ⟨exe, sender, id, hexe, rfl, hsender, hid, hcall, rfl⟩, hallowed, hsuccess,
      hs.perform ht hallowed hdb htokens hinfo hamounts⟩
  · refine .inr ⟨fun caller call hcall hallowed => ?_, hfailed, hspares⟩
    obtain ⟨exe', sender', id, hexe', -, hsender', hid, hcalled, rfl⟩ :=
      ProcessedTransaction.tokenCall_eq_some_iff.mp hcall
    obtain rfl := Transaction.executeContractFunction.inj (hexe.symm.trans hexe')
    obtain rfl := Except.ok.inj (hsender.symm.trans hsender')
    exact hnot _ ((execution_eq_ok_iff hcontent hpermitted hs ht hsender).mpr
      ⟨id, call, hid, hcalled, hallowed, rfl⟩)

/-- A transaction that neither registers nor calls the contract leaves its token. -/
theorem tokenStep_of_none (hreg : p.registrationOf c = none)
    (hcall : p.tokenCall c tx.contract = none) : tokenStep c tx (some t) p = some t := by
  rw [tokenStep, hreg, if_neg (by simp), hcall]

/-- A transaction that calls the contract makes the ledger's call. -/
theorem tokenStep_of_some (hreg : p.registrationOf c = none)
    (hcall : p.tokenCall c tx.contract = some (caller, call)) :
    tokenStep c tx (some t) p = some (t.call wordLimit caller call) := by
  rw [tokenStep, hreg, if_neg (by simp), hcall]
  rfl

/-- A transaction that is no registration of a contract changes its token as the ledger does. -/
theorem StateView.Holds.step (hs : s.Holds c t) (ht : t.Sound) (hp : Accepted fs s p e)
    (hcontent : ∃ height id, s.contractContent c.bytes = .ok (some (height, id, tx.contract)))
    (hpermitted : tx.contract.IsPermitted) (hreg : p.registrationOf c = none) :
    ∃ t', tokenStep c tx (some t) p = some t' ∧ (view s e.asBlockDiff).Holds c t' ∧ t'.Sound := by
  obtain ⟨height, id, hcontent⟩ := hcontent
  -- whatever is no call that is allowed leaves the token as it is
  have hkeeps (hspares : e.toChanges.Spares c)
      (hrefused : ∀ caller call, p.tokenCall c tx.contract = some (caller, call) →
        ¬ t.Allowed wordLimit caller call) :
      ∃ t', tokenStep c tx (some t) p = some t' ∧ (view s e.asBlockDiff).Holds c t' ∧ t'.Sound := by
    cases hcall : p.tokenCall c tx.contract with
    | none => exact ⟨t, tokenStep_of_none hreg hcall, hs.spared hspares, ht⟩
    | some called =>
        obtain ⟨caller, call⟩ := called
        refine ⟨t, ?_, hs.spared hspares, ht⟩
        rw [tokenStep_of_some hreg hcall, Token.call, if_neg (hrefused caller call hcall)]
  by_cases hexe : ∃ exe, p.transaction = .executeContractFunction exe ∧ exe.contractId = c
  · obtain ⟨exe, hexe, rfl⟩ := hexe
    obtain ⟨caller, call, hcall, hallowed, -, hholds⟩ | ⟨hrefused, -, hspares⟩ :=
      hp.outcome hexe hs ht hcontent hpermitted
    · refine ⟨t.perform call, ?_, hholds, ht.perform hallowed⟩
      rw [tokenStep_of_some hreg hcall, Token.call, if_pos hallowed]
    · exact hkeeps hspares hrefused
  · refine hkeeps ?_ fun caller call hcall => ?_
    · obtain ⟨-, ⟨ch, related, heffect, rfl⟩, -⟩ := hp.applies
      have hstatus : ch.txStatus = p.status := hp.status
      obtain hspares | ⟨tx', htx, hsuccess, hc⟩ | ⟨exe, _, _, _, hcalled, ⟨hc, -⟩, -⟩ :=
        heffect.contract_cases c
      · exact hspares
      · cases hreg.symm.trans (ProcessedTransaction.registrationOf_eq_some_iff.mpr
          ⟨htx, hstatus.symm.trans hsuccess, hc⟩)
      · exact absurd ⟨exe, hcalled, hc⟩ hexe
    · obtain ⟨exe, _, _, hcalled, hc, -⟩ := ProcessedTransaction.tokenCall_eq_some_iff.mp hcall
      exact absurd ⟨exe, hcalled, hc⟩ hexe

/-- The first registration of a contract starts its token. -/
theorem Accepted.starts (hp : Accepted fs s p e) (hs : s.Unregistered c)
    (hreg : p.registrationOf c = some tx) (hpermitted : tx.contract.IsPermitted) :
    ∃ t, tx.token = some t ∧ (view s e.asBlockDiff).Holds c t ∧ t.Sound := by
  obtain ⟨ht, hstatus, rfl⟩ := ProcessedTransaction.registrationOf_eq_some_iff.mp hreg
  obtain ⟨-, ⟨ch, related, heffect, rfl⟩, -⟩ := hp.applies
  have hsuccess : ch.txStatus = .success := hp.status.trans hstatus
  rw [ht] at heffect
  cases heffect with
  | registerFailed _ sender hsender error =>
      exact absurd hsuccess (contractStatus_ne_success error)
  | registerContract _ sender hsender context hcontext df happly =>
      obtain ⟨signers, hsigners, rfl⟩ := ExecutionContext.fromRegConTx_eq_ok hcontext
      obtain ⟨m, u, desc, hdata, -, hmax, hunity, hdf⟩ := (init_apply_iff (stateVar_eq hpermitted)
        (ExecutionContext.head_signersOf hsigners hsender) tx.data_valid
        (trigger_eq hpermitted)).mp happly
      simp only [hs.count] at hdf
      refine ⟨Token.start sender.toAddress m.toInt u.toInt, ?_,
        StateView.holds_start hdf (hs.amounts 0) hs.count hmax hunity rfl rfl rfl rfl,
        Token.sound_start hmax⟩
      have hm :=
        (DataEntry.amount?_eq_some_iff (x := m) (tx.data_valid _ (hdata ▸ by simp))).mpr rfl
      have hu :=
        (DataEntry.amount?_eq_some_iff (x := u) (tx.data_valid _ (hdata ▸ by simp))).mpr rfl
      simp only [RegisterContractTransaction.token, toOption_eq_some_iff.mpr hsender, hdata,
        startOf, hm, hu, Option.bind_eq_bind, Option.bind_some]

end Steps

end Registered

section Chain

variable {fs : FunctionalitySettings} {s : StateView} {done : List ProcessedTransaction}
  {p : ProcessedTransaction} {e : Diff} {c : ContractAccount}
  {tx : RegisterContractTransaction.Checked}

/-- The registrations of a contract up to one more transaction. -/
theorem registrations_concat :
    registrations c (done ++ [p]) = registrations c done ++ (p.registrationOf c).toList := by
  rw [registrations, List.filterMap_append]
  cases hp : p.registrationOf c with
  | none => simp [hp, registrations]
  | some tx => simp [hp, registrations]

/-- The token after one more transaction is one step from the token before it. -/
theorem tokenAfter_concat :
    tokenAfter c tx (done ++ [p]) = tokenStep c tx (tokenAfter c tx done) p := by
  rw [tokenAfter, List.foldl_append]
  rfl

/-- A state stores what the ledger of the transactions before it comes to. -/
structure StateView.Follows (s : StateView) (c : ContractAccount)
    (done : List ProcessedTransaction) : Prop where
  unregistered : registrations c done = [] → s.Unregistered c
  registered : ∀ tx, registrations c done = [tx] → tx.contract.IsPermitted →
    ∃ t, tokenAfter c tx done = some t ∧ s.Holds c t ∧ t.Sound

/-- One more transaction. -/
theorem StateView.Follows.step (h : s.Follows c done)
    (hregistered : ∀ tx, lastRegistration c done = some tx → tx.contract.IsPermitted →
      s.Registered c tx) (hp : Accepted fs s p e) :
    (view s e.asBlockDiff).Follows c (done ++ [p]) where
  unregistered := by
    intro hnone
    rw [registrations_concat, List.append_eq_nil_iff, Option.toList_eq_nil_iff] at hnone
    exact (h.unregistered hnone.1).step hp hnone.2
  registered := by
    intro tx hone hpermitted
    rw [registrations_concat] at hone
    rw [tokenAfter_concat]
    cases hreg : p.registrationOf c with
    | none =>
        rw [hreg, Option.toList_none, List.append_nil] at hone
        obtain ⟨t, ht, hs, hsound⟩ := h.registered tx hone hpermitted
        have hlast : lastRegistration c done = some tx := by
          rw [lastRegistration, hone]
          rfl
        rw [ht]
        exact hs.step hsound hp (hregistered tx hlast hpermitted).content hpermitted hreg
    | some tx' =>
        rw [hreg, Option.toList_some] at hone
        obtain ⟨hnone, hsame⟩ := List.append_inj' (hone.trans (List.nil_append [tx]).symm) rfl
        obtain rfl := List.singleton_inj.mp hsame
        obtain ⟨t, ht, hs, hsound⟩ := hp.starts (h.unregistered hnone) hreg hpermitted
        refine ⟨t, ?_, hs, hsound⟩
        rw [tokenStep, hreg]
        exact ht

/-- Every state of a chain follows the ledgers of all contracts. -/
theorem follows_invariant (fs : FunctionalitySettings) : ChainInvariant fs fun done s =>
    (∀ c tx, lastRegistration c done = some tx → tx.contract.IsPermitted → s.Registered c tx) ∧
      ∀ c, s.Follows c done where
  empty := by
    refine ⟨(registered_invariant fs).empty, fun c => ⟨fun _ => ⟨?_, ?_, fun i rest => ?_⟩, ?_⟩⟩
    · rfl
    · rfl
    · rfl
    · intro tx hone
      cases hone
  transaction := by
    intro L done s p e hs h hp
    exact ⟨(registered_invariant fs).transaction hs h.1 hp, fun c => (h.2 c).step (h.1 c) hp⟩
  block := by
    intro L done s d snapshots hs hsnapshots h
    refine ⟨(registered_invariant fs).block hs hsnapshots h.1, fun c => ⟨fun hnone => ?_, ?_⟩⟩
    · have hbefore := (h.2 c).unregistered hnone
      exact ⟨hbefore.content, hbefore.count, hbefore.amounts⟩
    · intro tx hone hpermitted
      obtain ⟨t, ht, hholds, hsound⟩ := (h.2 c).registered tx hone hpermitted
      exact ⟨t, ht, hholds.congr (fun _ => rfl) rfl, hsound⟩
  write := by
    intro L done p d ss hp hd h
    have hwritten := StateStorage.view_eq_written_except ss hp.sound hd.stackable.fits
      hd.issuedAssets
    refine ⟨(registered_invariant fs).write ss hp hd h.1, fun c => ⟨fun hnone => ⟨?_, ?_, ?_⟩, ?_⟩⟩
    · have hcontent := ((h.2 c).unregistered hnone).content
      -- A contract is read back from bytes when it is stored, and this state is compared by hand.
      rw [StateStorage.contractContent_written]
      cases hc : d.txsDiff.contracts.lookup c.bytes with
      | none =>
          simp only [view, hc] at hcontent
          exact hcontent
      | some content =>
          simp only [view, hc] at hcontent
          cases hcontent
    · rw [← hwritten]
      exact ((h.2 c).unregistered hnone).count
    · rw [← hwritten]
      exact ((h.2 c).unregistered hnone).amounts
    · intro tx hone hpermitted
      obtain ⟨t, ht, hholds, hsound⟩ := (h.2 c).registered tx hone hpermitted
      refine ⟨t, ht, hholds.congr (fun k => ?_) ?_, hsound⟩
      · rw [← hwritten]
      · rw [← hwritten]
        rfl

/-- In every state of a chain a permitted contract that is registered once has the token its
registration starts, changed by the calls since that were allowed: nobody's amount is negative, all
amounts together are the total, and the total is at most the maximum. -/
theorem Passed.refines_token (h : Passed fs done s) (hreg : registrations c done = [tx])
    (hpermitted : tx.contract.IsPermitted) :
    ∃ t, tokenAfter c tx done = some t ∧ s.Holds c t ∧ t.Sound :=
  (((follows_invariant fs).passed h).2 c).registered tx hreg hpermitted

/-- The next transaction that calls its functions succeeds exactly if it is a call that its token
allows. -/
theorem Passed.succeeds_iff {exe : ExecuteContractFunctionTransaction.Checked}
    (h : Passed fs done s) (hp : Accepted fs s p e)
    (hexe : p.transaction = .executeContractFunction exe)
    (hreg : registrations exe.contractId done = [tx]) (hpermitted : tx.contract.IsPermitted) :
    p.status = .success ↔ ∃ t caller call, tokenAfter exe.contractId tx done = some t ∧
      p.tokenCall exe.contractId tx.contract = some (caller, call) ∧
      t.Allowed wordLimit caller call := by
  have hfollows := (follows_invariant fs).passed h
  obtain ⟨t, ht, hs, hsound⟩ := (hfollows.2 exe.contractId).registered tx hreg hpermitted
  have hlast : lastRegistration exe.contractId done = some tx := by
    rw [lastRegistration, hreg]
    rfl
  obtain ⟨height, id, hcontent⟩ := (hfollows.1 _ tx hlast hpermitted).content
  obtain ⟨caller, call, hcall, hallowed, hsuccess, -⟩ | ⟨hrefused, hfailed, -⟩ :=
    hp.outcome hexe hs hsound hcontent hpermitted
  · exact iff_of_true hsuccess ⟨t, caller, call, ht, hcall, hallowed⟩
  · refine iff_of_false hfailed ?_
    rintro ⟨t', caller, call, ht', hcall, hallowed⟩
    obtain rfl := Option.some.inj (ht.symm.trans ht')
    exact hrefused caller call hcall hallowed

end Chain

end Platform

namespace Sample

/-- The call of `issue`, as it is accepted. -/
def issued : ProcessedTransaction := ⟨.success, 100, .executeContractFunction issuesToken⟩

/-- What the transactions change with it. -/
def issuedDiff : Diff :=
  okOr ((tokenTransactions ++ [issued]).foldlM
    (BlockDiffer.txStep fs initialState.toStateView none 0 1) Diff.empty) Diff.empty

/-- What the transactions and the ledger of the token evaluate to. -/
theorem issued_evaluates :
    ((tokenTransactions ++ [issued]).foldlM
      (BlockDiffer.txStep fs initialState.toStateView none 0 1) Diff.empty).isOk = true ∧
    registrations registersToken.contractId (tokenTransactions ++ [issued]) = [registersToken] ∧
    registrations issuesToken.contractId tokenTransactions = [registersToken] ∧
    (tokenAfter registersToken.contractId registersToken (tokenTransactions ++ [issued])).map
      Token.total = some 5 := by
  decide +kernel

/-- The state after the issue is passed by the sample's transactions. -/
theorem issuedState_passed : Passed fs (tokenTransactions ++ [issued])
    (view initialState.toStateView issuedDiff.asBlockDiff) :=
  .intro [] initialState .empty none 0 _ issuedDiff (eq_ok_okOr issued_evaluates.1)

/-- The state stores the token of the ledger, and five of it have been issued. -/
theorem issuedState_follows :
    (∃ t, tokenAfter registersToken.contractId registersToken (tokenTransactions ++ [issued])
        = some t ∧
      (view initialState.toStateView issuedDiff.asBlockDiff).Holds registersToken.contractId t ∧
      t.Sound) ∧
    (tokenAfter registersToken.contractId registersToken (tokenTransactions ++ [issued])).map
      Token.total = some 5 :=
  ⟨issuedState_passed.refines_token issued_evaluates.2.1 (.inl rfl), issued_evaluates.2.2.2⟩

/-- The call of its issuer succeeds, as the token allows it. -/
theorem issued_succeeds :
    issued.status = .success ↔ ∃ t caller call,
      tokenAfter issuesToken.contractId registersToken tokenTransactions = some t ∧
      issued.tokenCall issuesToken.contractId registersToken.contract = some (caller, call) ∧
      t.Allowed wordLimit caller call :=
  tokenState_passed.succeeds_iff issueDiff_accepted rfl issued_evaluates.2.2.1 (.inl rfl)

end Sample

end Vsys
