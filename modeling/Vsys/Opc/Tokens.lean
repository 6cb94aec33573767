import Mathlib.Algebra.BigOperators.Ring.Finset
import Mathlib.Algebra.Order.BigOperators.Group.Finset
import Vsys.Opc.Differ
import Vsys.Opc.TokenKeys
import Vsys.State.Stacking

/-!
# Token supplies

The law of the tokens: no balance is negative, the total of a token is the sum of its balances, and
it does not exceed the token's maximum.  Every opcode's effect on the tokens is one of five, and
each keeps the law, as long as the count of a contract's tokens does not wrap.
-/

namespace Vsys

open Lib

variable [Platform]

namespace Ledger

/-- All addresses, for the sums over them. -/
noncomputable scoped instance : Fintype Address := Fintype.ofFinite Address

end Ledger

open scoped Ledger

@[simp]
theorem OpcDiff.empty_combine (d : OpcDiff) : OpcDiff.empty.combine d = d := by
  simp [OpcDiff.combine, OpcDiff.empty]

/-- The part of a state the token opcodes work on. -/
@[ext]
structure TokenState where
  contractTokens : ByteStr → Int32
  tokenInfo : ByteStr → Result (Option DataEntry)
  tokenAccountBalance : ByteStr → Int64

/-- The tokens of a state. -/
def StateView.tokens (s : StateView) : TokenState :=
  ⟨s.contractTokens, s.tokenInfo, s.tokenAccountBalance⟩

namespace TokenState

/-- The tokens after an opcode diff. -/
def after (t : TokenState) (d : OpcDiff) : TokenState where
  contractTokens := fun id => t.contractTokens id + (d.contractTokens.lookup id).getD 0
  tokenInfo := fun id =>
    match d.tokenDB.lookup id with
    | some bytes => some <$> explicitGet (DataEntry.fromBytes bytes)
    | none => t.tokenInfo id
  tokenAccountBalance := fun id =>
    safeSum ((d.tokenAccountBalance.lookup id).getD 0) (t.tokenAccountBalance id)

@[simp]
theorem after_empty (t : TokenState) : t.after OpcDiff.empty = t := by
  apply TokenState.ext <;> funext k <;> simp [after, OpcDiff.empty]

/-- The total of a token. -/
def total (t : TokenState) (c : ContractAccount) (i : Int32) : Int :=
  (t.tokenAccountBalance (tokenKey (c.tokenId i) .total)).toInt

/-- The balance of an address in a token. -/
def balance (t : TokenState) (c : ContractAccount) (i : Int32) (a : Address) : Int :=
  (t.tokenAccountBalance (balanceKey (c.tokenId i) a.bytes)).toInt

/-- No balance is negative, and the total of every token is the sum of its balances. -/
structure Conserved (t : TokenState) : Prop where
  nonneg : ∀ k, 0 ≤ (t.tokenAccountBalance k).toInt
  total : ∀ c i, t.total c i = ∑ a, t.balance c i a

/-- Every token has a maximum its total does not exceed, and tokens yet to come have no total. -/
structure Capped (t : TokenState) : Prop where
  count : ∀ c : ContractAccount, 0 ≤ t.contractTokens c.bytes
  max : ∀ (c : ContractAccount) i, 0 ≤ i → i < t.contractTokens c.bytes →
    ∃ e m, t.tokenInfo (tokenKey (c.tokenId i) .max) = .ok (some e) ∧
      Longs.fromByteArray e.data = .ok m ∧ t.total c i ≤ m.toInt
  fresh : ∀ (c : ContractAccount) i, t.contractTokens c.bytes ≤ i → t.total c i = 0

end TokenState

/-- What the sums of an opcode diff need: they are exact, and leave no negative amount. -/
def OpcDiff.AddsTo (d : OpcDiff) (t : TokenState) : Prop :=
  ∀ k v, d.tokenAccountBalance.lookup k = some v → Vsys.AddsTo (t.tokenAccountBalance k) v

/-- By how much an opcode diff changes the amount under a key. -/
def OpcDiff.delta (d : OpcDiff) (k : ByteStr) : Int :=
  ((d.tokenAccountBalance.lookup k).getD 0).toInt

theorem OpcDiff.AddsTo.toInt {d : OpcDiff} {t : TokenState} (h : d.AddsTo t) (k : ByteStr) :
    ((t.after d).tokenAccountBalance k).toInt = (t.tokenAccountBalance k).toInt + d.delta k := by
  unfold OpcDiff.delta
  change (safeSum _ _).toInt = _
  rw [safeSum_comm]
  cases hv : d.tokenAccountBalance.lookup k with
  | none => simp
  | some v => exact (h k v hv).toInt

/-- A diff whose change of every total is the sum of its changes of the balances. -/
def OpcDiff.Balanced (d : OpcDiff) : Prop :=
  ∀ (c : ContractAccount) i, d.delta (tokenKey (c.tokenId i) .total)
    = ∑ a : Address, d.delta (balanceKey (c.tokenId i) a.bytes)

/-- A balanced diff with exact sums conserves every token. -/
theorem TokenState.Conserved.after {t : TokenState} {d : OpcDiff} (ht : t.Conserved)
    (hd : d.AddsTo t) (hbalanced : d.Balanced) : (t.after d).Conserved where
  nonneg := fun k => by
    change 0 ≤ (safeSum _ _).toInt
    rw [safeSum_comm]
    cases hv : d.tokenAccountBalance.lookup k with
    | none => simpa using ht.nonneg k
    | some v => exact hd k v hv
  total := fun c i => by
    have htotal := ht.total c i
    unfold TokenState.total TokenState.balance at htotal ⊢
    simp only [hd.toInt]
    rw [Finset.sum_add_distrib, ← hbalanced c i, htotal]

/-- Diffs with exact sums one after the other have exact sums when they are combined. -/
theorem OpcDiff.AddsTo.combine {t : TokenState} {d e : OpcDiff} (ht : t.Conserved)
    (hd : d.AddsTo t) (he : e.AddsTo (t.after d)) : (d.combine e).AddsTo t := by
  intro k v hv
  change (Dict.mergeWith (· + ·) _ _).lookup k = some v at hv
  rw [Dict.lookup_mergeWith] at hv
  exact Vsys.AddsTo.merge (ht.nonneg k) (hd k) (he k) v hv

/-- Diffs with exact sums leave the same tokens one after the other and combined. -/
theorem TokenState.after_combine {t : TokenState} {d e : OpcDiff} (ht : t.Conserved)
    (hd : d.AddsTo t) (he : e.AddsTo (t.after d)) : t.after (d.combine e) = (t.after d).after e := by
  apply TokenState.ext
  · funext id
    simp only [after, OpcDiff.combine, Dict.lookup_mergeWith]
    cases d.contractTokens.lookup id <;> cases e.contractTokens.lookup id <;>
      simp [Int32.add_assoc]
  · funext id
    simp only [after, OpcDiff.combine, Dict.lookup_overlay]
    cases e.tokenDB.lookup id <;> rfl
  · funext k
    change safeSum (((Dict.mergeWith (· + ·) _ _).lookup k).getD 0) _ = _
    rw [Dict.lookup_mergeWith]
    exact Vsys.AddsTo.merge_sum (ht.nonneg k) (hd k) (he k)

/-- The effects an opcode can have on the tokens of the contract `c`, with what it has checked. -/
inductive OpcDiff.TokenEffect (t : TokenState) (c : ContractAccount) (d : OpcDiff) : Prop where
  /-- No token changes. -/
  | none (tokens : d.contractTokens = ∅) (info : d.tokenDB = ∅)
      (balance : d.tokenAccountBalance = ∅)
  /-- The next token comes into being, with a maximum and no supply. -/
  | newToken (max unity desc : DataEntry) (m : Int64) (valid : max.Valid)
      (type : max.dataType = .amount) (value : Longs.fromByteArray max.data = .ok m) (nonneg : 0 ≤ m)
      (tokens : d.contractTokens = Finmap.singleton c.bytes 1)
      (info : d.tokenDB = (((∅ : Dict ByteStr ByteStr).insert
        (tokenKey (c.tokenId (t.contractTokens c.bytes)) .max) max.bytes).insert
        (tokenKey (c.tokenId (t.contractTokens c.bytes)) .unity) unity.bytes).insert
        (tokenKey (c.tokenId (t.contractTokens c.bytes)) .desc) desc.bytes)
      (balance : d.tokenAccountBalance = Finmap.singleton
        (tokenKey (c.tokenId (t.contractTokens c.bytes)) .total) 0)
  /-- The unity of a token changes. -/
  | split (i : Int32) (unity : DataEntry) (tokens : d.contractTokens = ∅)
      (info : d.tokenDB = Finmap.singleton (tokenKey (c.tokenId i) .unity) unity.bytes)
      (balance : d.tokenAccountBalance = ∅)
  /-- The supply of a token and the balance of one address grow together. -/
  | deposit (i : Int32) (a : Address) (x m : Int64) (index : 0 ≤ i)
      (count : i < t.contractTokens c.bytes) (nonneg : 0 ≤ x)
      (exact : InWord (x.toInt + t.total c i)) (maxInfo : Option DataEntry)
      (max : t.tokenInfo (tokenKey (c.tokenId i) .max) = .ok maxInfo)
      (value : Longs.fromByteArray (maxInfo.getD ⟨Longs.toByteArray 0, .amount⟩).data = .ok m)
      (le_max : x.toInt + t.total c i ≤ m.toInt)
      (tokens : d.contractTokens = ∅) (info : d.tokenDB = ∅)
      (balance : d.tokenAccountBalance = ((∅ : Dict ByteStr Int64).insert
        (tokenKey (c.tokenId i) .total) x).insert (balanceKey (c.tokenId i) a.bytes) x)
  /-- The supply of a token and the balance of one address shrink together. -/
  | withdraw (i : Int32) (a : Address) (x : Int64) (index : 0 ≤ i)
      (count : i < t.contractTokens c.bytes) (nonneg : 0 ≤ x) (le_balance : x.toInt ≤ t.balance c i a)
      (tokens : d.contractTokens = ∅) (info : d.tokenDB = ∅)
      (balance : d.tokenAccountBalance = ((∅ : Dict ByteStr Int64).insert
        (tokenKey (c.tokenId i) .total) (-x)).insert (balanceKey (c.tokenId i) a.bytes) (-x))
  /-- A balance moves from one address to another. -/
  | transfer (i : Int32) (s r : Address) (x : Int64) (ne : s ≠ r) (index : 0 ≤ i)
      (count : i < t.contractTokens c.bytes) (nonneg : 0 ≤ x) (le_balance : x.toInt ≤ t.balance c i s)
      (exact : InWord (x.toInt + t.balance c i r))
      (tokens : d.contractTokens = ∅) (info : d.tokenDB = ∅)
      (balance : d.tokenAccountBalance = ((∅ : Dict ByteStr Int64).insert
        (balanceKey (c.tokenId i) s.bytes) (-x)).insert (balanceKey (c.tokenId i) r.bytes) x)

variable {t : TokenState} {c : ContractAccount} {d : OpcDiff}

/-- A diff with amounts under two keys adds to a state when both do. -/
theorem OpcDiff.addsTo_of_insert {k k' : ByteStr} {x x' : Int64}
    (hd : d.tokenAccountBalance = ((∅ : Dict ByteStr Int64).insert k x).insert k' x')
    (h : Vsys.AddsTo (t.tokenAccountBalance k) x) (h' : Vsys.AddsTo (t.tokenAccountBalance k') x') :
    d.AddsTo t := by
  intro key v hv
  rw [hd, Dict.lookup_insert_eq, Dict.lookup_insert_eq] at hv
  split at hv
  · rename_i hk
    obtain rfl := Option.some.inj hv
    exact hk ▸ h'
  · split at hv
    · rename_i hk
      obtain rfl := Option.some.inj hv
      exact hk ▸ h
    · rw [Finmap.lookup_empty] at hv
      cases hv

/-- The change under a key of a diff with amounts under two keys. -/
theorem OpcDiff.delta_insert {k k' : ByteStr} {x x' : Int64}
    (hd : d.tokenAccountBalance = ((∅ : Dict ByteStr Int64).insert k x).insert k' x')
    (key : ByteStr) :
    d.delta key = if key = k' then x'.toInt else if key = k then x.toInt else 0 := by
  rw [OpcDiff.delta, hd, Dict.lookup_insert_eq, Dict.lookup_insert_eq]
  split
  · rfl
  · split <;> rfl

/-- A balance of a conserved token does not exceed its total. -/
theorem TokenState.Conserved.balance_le (ht : t.Conserved) (c : ContractAccount) (i : Int32)
    (a : Address) : t.balance c i a ≤ t.total c i := by
  rw [ht.total]
  exact Finset.single_le_sum (f := t.balance c i) (fun b _ => ht.nonneg _) (Finset.mem_univ a)

/-- The sums of an opcode are exact. -/
theorem OpcDiff.TokenEffect.addsTo (ht : t.Conserved) (h : d.TokenEffect t c) : d.AddsTo t := by
  have hzero : (0 : Int64).toInt = 0 := rfl
  cases h with
  | none _ _ balance | split _ _ _ _ balance =>
      intro k v hv
      rw [balance, Finmap.lookup_empty] at hv
      cases hv
  | newToken _ _ _ _ _ _ _ _ _ _ balance =>
      intro k v hv
      rw [balance, Dict.lookup_singleton] at hv
      split at hv
      · obtain rfl := Option.some.inj hv
        rw [Vsys.AddsTo, safeSum_zero]
        exact ht.nonneg k
      · cases hv
  -- The guards of the opcodes speak of the sender's balance and of the total; that no other sum
  -- overflows follows from the conserved total.
  | deposit i a x _ _ _ nonneg exact _ _ _ _ _ _ balance =>
      have hx := Int64.le_iff_toInt_le.mp nonneg
      have hle := ht.balance_le c i a
      have htotal := ht.nonneg (tokenKey (c.tokenId i) .total)
      have hbalance := ht.nonneg (balanceKey (c.tokenId i) a.bytes)
      unfold InWord at exact
      unfold TokenState.total at exact hle
      unfold TokenState.balance at hle
      exact addsTo_of_insert balance (addsTo_iff.mpr (by omega)) (addsTo_iff.mpr (by omega))
  | withdraw i a x _ _ nonneg le_balance _ _ balance =>
      have hx := Int64.le_iff_toInt_le.mp nonneg
      have hle := ht.balance_le c i a
      have hneg := toInt_neg_of_nonneg nonneg
      have htotal := inWord_toInt (t.tokenAccountBalance (tokenKey (c.tokenId i) .total))
      have hbalance := inWord_toInt (t.tokenAccountBalance (balanceKey (c.tokenId i) a.bytes))
      unfold InWord at htotal hbalance
      unfold TokenState.total at hle
      unfold TokenState.balance at hle le_balance
      exact addsTo_of_insert balance (addsTo_iff.mpr (by omega)) (addsTo_iff.mpr (by omega))
  | transfer i s r x _ _ _ nonneg le_balance exact _ _ balance =>
      have hx := Int64.le_iff_toInt_le.mp nonneg
      have hneg := toInt_neg_of_nonneg nonneg
      have hsender := inWord_toInt (t.tokenAccountBalance (balanceKey (c.tokenId i) s.bytes))
      have hrecipient := ht.nonneg (balanceKey (c.tokenId i) r.bytes)
      unfold InWord at exact hsender
      unfold TokenState.balance at le_balance exact
      exact addsTo_of_insert balance (addsTo_iff.mpr (by omega)) (addsTo_iff.mpr (by omega))

/-- Every opcode changes a total by as much as the balances together. -/
theorem OpcDiff.TokenEffect.balanced (h : d.TokenEffect t c) : d.Balanced := by
  intro c' i'
  cases h with
  | none _ _ balance | split _ _ _ _ balance =>
      simp [OpcDiff.delta, balance]
  | newToken _ _ _ _ _ _ _ _ _ _ balance =>
      have hzero (k : ByteStr) : d.delta k = 0 := by
        rw [OpcDiff.delta, balance, Dict.lookup_singleton]
        split <;> rfl
      simp [hzero]
  | deposit i a x _ _ _ _ _ _ _ _ _ _ _ balance
  | withdraw i a x _ _ _ _ _ _ balance =>
      simp only [OpcDiff.delta_insert balance, tokenKey_inj, balanceKey_inj, and_true,
        tokenKey_ne_balanceKey, tokenKey_ne_balanceKey.symm, if_false]
      by_cases hc : c' = c ∧ i' = i
      · simp [hc]
      · simp only [← and_assoc, hc, false_and, if_false, Finset.sum_const_zero]
  | transfer i s r x ne _ _ nonneg _ _ _ _ balance =>
      have hneg := toInt_neg_of_nonneg nonneg
      simp only [OpcDiff.delta_insert balance, balanceKey_inj, tokenKey_ne_balanceKey, if_false]
      by_cases hc : c' = c ∧ i' = i
      · have hsplit (a : Address) :
            (if c' = c ∧ i' = i ∧ a = r then x.toInt else
              if c' = c ∧ i' = i ∧ a = s then (-x).toInt else 0)
              = (if a = r then x.toInt else 0) + if a = s then -x.toInt else 0 := by
          by_cases hr : a = r
          · simp [hc, hr, ne.symm]
          · simp [hc, hr, hneg]
        simp only [hsplit, Finset.sum_add_distrib, Finset.sum_ite_eq', Finset.mem_univ, if_true]
        omega
      · simp only [← and_assoc, hc, false_and, if_false, Finset.sum_const_zero]

/-- Every opcode conserves the tokens. -/
theorem OpcDiff.TokenEffect.conserved (ht : t.Conserved) (h : d.TokenEffect t c) :
    (t.after d).Conserved :=
  ht.after (h.addsTo ht) h.balanced

/-- How an opcode changes the total of a token. -/
theorem OpcDiff.TokenEffect.total_after (ht : t.Conserved) (h : d.TokenEffect t c)
    (c' : ContractAccount) (i' : Int32) :
    (t.after d).total c' i' = t.total c' i' + d.delta (tokenKey (c'.tokenId i') .total) :=
  (h.addsTo ht).toInt _


omit [Platform] in
theorem toInt_succ {n : Int32} (h : n < Int32.maxValue) : (n + 1).toInt = n.toInt + 1 := by
  have hmax : Int32.maxValue.toInt = 2147483647 := rfl
  have hone : (1 : Int32).toInt = 1 := rfl
  have hle := n.le_toInt
  rw [Int32.lt_iff_toInt_lt] at h
  rw [Int32.toInt_add, hone, Int.bmod_eq_of_le (by omega) (by omega)]

/-- The maximum of a token an opcode does not create stays. -/
theorem TokenState.tokenInfo_after_of_none {k : ByteStr} (h : d.tokenDB.lookup k = Option.none) :
    (t.after d).tokenInfo k = t.tokenInfo k := by
  simp only [TokenState.after, h]

/-- An opcode keeps every total below its maximum, unless it wraps the count of the tokens. -/
theorem OpcDiff.TokenEffect.capped (ht : t.Conserved) (hcap : t.Capped) (h : d.TokenEffect t c)
    (hroom : (d.contractTokens.lookup c.bytes).isSome → t.contractTokens c.bytes < Int32.maxValue) :
    (t.after d).Capped := by
  have htotal := h.total_after ht
  -- Every effect but a new token leaves the count of the tokens, and their maxima.
  have hkeep (htokens : d.contractTokens = ∅)
      (hinfo : ∀ (c' : ContractAccount) i',
        d.tokenDB.lookup (tokenKey (c'.tokenId i') .max) = Option.none)
      (hle : ∀ (c' : ContractAccount) i' m, 0 ≤ i' → i' < t.contractTokens c'.bytes →
        (∃ e, t.tokenInfo (tokenKey (c'.tokenId i') .max) = .ok (some e) ∧
          Longs.fromByteArray e.data = .ok m) →
        t.total c' i' ≤ m.toInt → (t.after d).total c' i' ≤ m.toInt)
      (hfresh : ∀ (c' : ContractAccount) i', t.contractTokens c'.bytes ≤ i' →
        d.delta (tokenKey (c'.tokenId i') .total) = 0) : (t.after d).Capped := by
    have hcount (id : ByteStr) : (t.after d).contractTokens id = t.contractTokens id := by
      simp [TokenState.after, htokens]
    refine ⟨fun c' => ?_, fun c' i' h0 hi => ?_, fun c' i' hi => ?_⟩
    · rw [hcount]
      exact hcap.count c'
    · rw [hcount] at hi
      obtain ⟨e, m, he, hm, hmax⟩ := hcap.max c' i' h0 hi
      rw [TokenState.tokenInfo_after_of_none (hinfo c' i')]
      exact ⟨e, m, he, hm, hle c' i' m h0 hi ⟨e, he, hm⟩ hmax⟩
    · rw [hcount] at hi
      rw [htotal, hcap.fresh c' i' hi, hfresh c' i' hi, Int.add_zero]
  cases h with
  | none tokens info balance =>
      have hdelta (k : ByteStr) : d.delta k = 0 := by simp [OpcDiff.delta, balance]
      refine hkeep tokens (by simp [info]) (fun c' i' m _ _ _ hle => ?_) fun c' i' _ => hdelta _
      rw [htotal, hdelta, Int.add_zero]
      exact hle
  | split i unity tokens info balance =>
      have hdelta (k : ByteStr) : d.delta k = 0 := by simp [OpcDiff.delta, balance]
      refine hkeep tokens ?_ (fun c' i' m _ _ _ hle => ?_) fun c' i' _ => hdelta _
      · intro c' i'
        rw [info, Dict.lookup_singleton, if_neg]
        rw [tokenKey_inj]
        rintro ⟨_, _, hkey⟩
        cases hkey
      · rw [htotal, hdelta, Int.add_zero]
        exact hle
  | newToken max unity desc m valid type value nonneg tokens info balance =>
      have hdelta (k : ByteStr) : d.delta k = 0 := by
        rw [OpcDiff.delta, balance, Dict.lookup_singleton]
        split <;> rfl
      have hlt := hroom (by rw [tokens, Dict.lookup_singleton, if_pos rfl]; rfl)
      have hsucc := toInt_succ hlt
      have hcount (c' : ContractAccount) : (t.after d).contractTokens c'.bytes
          = if c' = c then t.contractTokens c.bytes + 1 else t.contractTokens c'.bytes := by
        simp only [TokenState.after, tokens, Dict.lookup_singleton, ← ContractAccount.ext_iff]
        split
        · rename_i heq
          rw [heq, Option.getD_some]
        · rw [Option.getD_none, Int32.add_zero]
      have hzero : (0 : Int32).toInt = 0 := rfl
      refine ⟨fun c' => ?_, fun c' i' h0 hi => ?_, fun c' i' hi => ?_⟩
      · have hold := hcap.count c'
        rw [hcount]
        split
        · rename_i heq
          rw [heq] at hold
          rw [Int32.le_iff_toInt_le] at hold ⊢
          omega
        · exact hold
      · by_cases hnew : c' = c ∧ i' = t.contractTokens c.bytes
        · obtain ⟨rfl, rfl⟩ := hnew
          refine ⟨max, m, ?_, value, ?_⟩
          · have hread := DataEntry.fromBytes_bytes valid (by rw [type]; decide)
            have hlookup : d.tokenDB.lookup (tokenKey (c'.tokenId (t.contractTokens c'.bytes)) .max)
                = some max.bytes := by
              simp [info, tokenKey_inj]
            simp only [TokenState.after, hlookup, hread]
            rfl
          · rw [htotal, hdelta, hcap.fresh c' _ (Int32.le_refl _)]
            exact Int64.le_iff_toInt_le.mp nonneg
        · have hlookup : d.tokenDB.lookup (tokenKey (c'.tokenId i') .max) = Option.none := by
            simp [info, tokenKey_inj, hnew]
          rw [TokenState.tokenInfo_after_of_none hlookup, htotal, hdelta, Int.add_zero]
          refine hcap.max c' i' h0 ?_
          rw [hcount] at hi
          split at hi
          · rename_i heq
            subst heq
            have hne : i'.toInt ≠ (t.contractTokens c'.bytes).toInt :=
              fun heq => hnew ⟨rfl, Int32.toInt_inj.mp heq⟩
            rw [Int32.lt_iff_toInt_lt] at hi ⊢
            omega
          · exact hi
      · rw [htotal, hdelta, Int.add_zero]
        refine hcap.fresh c' i' ?_
        rw [hcount] at hi
        split at hi
        · rename_i heq
          subst heq
          rw [Int32.le_iff_toInt_le] at hi ⊢
          omega
        · exact hi
  | deposit i a x m index count nonneg exact maxInfo max value le_max tokens info balance =>
      have hdelta (c' : ContractAccount) (i' : Int32) :
          d.delta (tokenKey (c'.tokenId i') .total) = if c' = c ∧ i' = i then x.toInt else 0 := by
        simp only [OpcDiff.delta_insert balance, tokenKey_inj, and_true, tokenKey_ne_balanceKey,
          if_false]
      refine hkeep tokens (by simp [info]) (fun c' i' m' _ _ hmax hle => ?_) fun c' i' hi => ?_
      · rw [htotal, hdelta]
        split
        · rename_i heq
          obtain ⟨rfl, rfl⟩ := heq
          obtain ⟨e, he, hm'⟩ := hmax
          obtain rfl := Except.ok.inj (max.symm.trans he)
          obtain rfl := Except.ok.inj (value.symm.trans hm')
          rw [Int.add_comm]
          exact le_max
        · rw [Int.add_zero]
          exact hle
      · rw [hdelta, if_neg]
        rintro ⟨rfl, rfl⟩
        exact Int32.not_le.mpr count hi
  | withdraw i a x index count nonneg le_balance tokens info balance =>
      have hneg := toInt_neg_of_nonneg nonneg
      have hx := Int64.le_iff_toInt_le.mp nonneg
      have hzero : (0 : Int64).toInt = 0 := rfl
      have hdelta (c' : ContractAccount) (i' : Int32) :
          d.delta (tokenKey (c'.tokenId i') .total) = if c' = c ∧ i' = i then -x.toInt else 0 := by
        simp only [OpcDiff.delta_insert balance, tokenKey_inj, and_true, tokenKey_ne_balanceKey,
          if_false, hneg]
      refine hkeep tokens (by simp [info]) (fun c' i' m' _ _ _ hle => ?_) fun c' i' hi => ?_
      · rw [htotal, hdelta]
        split <;> omega
      · rw [hdelta, if_neg]
        rintro ⟨rfl, rfl⟩
        exact Int32.not_le.mpr count hi
  | transfer i s r x ne index count nonneg le_balance exact tokens info balance =>
      have hdelta (c' : ContractAccount) (i' : Int32) :
          d.delta (tokenKey (c'.tokenId i') .total) = 0 := by
        simp only [OpcDiff.delta_insert balance, tokenKey_ne_balanceKey, if_false]
      refine hkeep tokens (by simp [info]) (fun c' i' m' _ _ _ hle => ?_) fun c' i' _ => hdelta c' i'
      rw [htotal, hdelta, Int.add_zero]
      exact hle

/-- The count of the tokens grows by one where an opcode creates one, and stays otherwise. -/
theorem OpcDiff.TokenEffect.contractTokens_after (h : d.TokenEffect t c)
    (hroom : (d.contractTokens.lookup c.bytes).isSome → t.contractTokens c.bytes < Int32.maxValue) :
    ((t.after d).contractTokens c.bytes).toInt = (t.contractTokens c.bytes).toInt
      + if (d.contractTokens.lookup c.bytes).isSome then 1 else 0 := by
  have hkeep (htokens : d.contractTokens = ∅) :
      ((t.after d).contractTokens c.bytes).toInt = (t.contractTokens c.bytes).toInt
        + if (d.contractTokens.lookup c.bytes).isSome then 1 else 0 := by
    simp [TokenState.after, htokens]
  cases h with
  | none tokens _ _ | split _ _ tokens _ _ | deposit _ _ _ _ _ _ _ _ _ _ _ _ tokens _ _
  | withdraw _ _ _ _ _ _ _ tokens _ _ | transfer _ _ _ _ _ _ _ _ _ _ tokens _ _ =>
      exact hkeep tokens
  | newToken _ _ _ _ _ _ _ _ tokens _ _ =>
      have hlookup : d.contractTokens.lookup c.bytes = some 1 := by
        rw [tokens, Dict.lookup_singleton, if_pos rfl]
      have hsucc := toInt_succ (hroom (by rw [hlookup]; rfl))
      simp only [TokenState.after, hlookup, Option.getD_some, Option.isSome_some, if_true]
      exact hsucc

end Vsys
