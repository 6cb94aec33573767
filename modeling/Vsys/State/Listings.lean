import Mathlib.Data.Prod.Lex
import Vsys.Lib.Listing
import Vsys.State.Stacking

/-!
# Listings of transactions

A reader lists the transactions of an account newest first, and leaves the order of transactions of
one height and timestamp open.  Diffs whose transactions are all newer than the state put their
listings in front, whether they are stacked or combined first.
-/

namespace Vsys

open Lib

variable [Platform]

/-- The height and the timestamp of a transaction of the state. -/
def StateView.stamp (s : StateView) (id : ByteStr) : Option (Nat × Int64) :=
  match s.transactionInfo id with
  | .ok (some (h, p)) => some (h, p.transaction.timestamp)
  | _ => none

/-- The listing of an account's transactions: those of one type, or all. -/
def StateReader.ids (r : StateReader) : Option TransactionType → Address → Int → Int →
    Nat × List ByteStr
  | none => r.accountTransactionIds
  | some txType => r.txTypeAccountTxIds txType

/-- The length of a listing. -/
def StateReader.idsLength (r : StateReader) : Option TransactionType → Address → Nat
  | none => r.accountTransactionsLengths
  | some txType => r.txTypeAccTxLengths txType

/-- The listing of a diff. -/
def Diff.ids (d : Diff) : Option TransactionType → Address → List ByteStr
  | none => d.accountTransactionIds
  | some txType => d.txTypeAccountTxIds txType

/-- Which transactions a listing takes. -/
def ofType : Option TransactionType → ProcessedTransaction → Bool
  | none, _ => true
  | some txType, p => p.transaction.transactionType = txType

/-- `l` is what a listing of a reader pages through, for the limits and offsets that may be
asked. -/
structure StateReader.Lists (r : StateReader) (asked : Int → Int → Prop)
    (txType : Option TransactionType) (a : Address) (l : List ByteStr) : Prop where
  length : r.idsLength txType a = l.length
  page : ∀ limit offset, asked limit offset → r.ids txType a limit offset = page l limit offset
  known : ∀ id ∈ l, r.containsTransaction id = true

/-- The limits and offsets that ask for a page. -/
def Nonnegative (limit offset : Int) : Prop := 0 ≤ limit ∧ 0 ≤ offset

/-- Two readers answer every query alike, the listings up to the order of transactions of one
height and timestamp. -/
structure SameAnswers (asked : Int → Int → Prop) (r r' : StateReader) : Prop where
  view : r.toStateView = r'.toStateView
  ids : ∀ txType a, ∃ l l', r.Lists asked txType a l ∧ r'.Lists asked txType a l' ∧
    TieEquiv r.stamp l l'

/-- A diff whose transactions are new on the state, and newer than it. -/
structure BlockDiff.Dated (s : StateView) (d : BlockDiff) : Prop where
  fresh : ∀ id t, d.txsDiff.transactions.lookup id = some t → s.containsTransaction id = false
  height : ∀ id t, d.txsDiff.transactions.lookup id = some t →
    s.height < t.1 ∧ t.1 ≤ s.height + d.heightDiff

namespace Diff

variable {d d₁ d₂ : Diff} {id : ByteStr} {txType : Option TransactionType} {a : Address}

theorem ids_eq : d.ids txType a = d.freshHead (d.touching a (ofType txType)) := by
  cases txType <;> rfl

/-- The key `freshHead` sorts by. -/
def ageKey (d : Diff) (id : ByteStr) : Int ×ₗ Int := toLex (d.age id)

theorem mem_touching {p : ProcessedTransaction → Bool} :
    id ∈ d.touching a p ↔
      ∃ t, d.transactions.lookup id = some t ∧ a ∈ t.2.2 ∧ p t.2.1 = true := by
  rw [touching, Finset.mem_filter, Dict.mem_keys_iff_isSome]
  cases d.transactions.lookup id with
  | none => simp
  | some t => simp

theorem mem_freshHead {s : Finset ByteStr} : id ∈ d.freshHead s ↔ id ∈ s := by
  rw [freshHead, List.mem_mergeSort, Platform.mem_setToList]

theorem mem_ids : id ∈ d.ids txType a ↔
    ∃ t, d.transactions.lookup id = some t ∧ a ∈ t.2.2 ∧ ofType txType t.2.1 = true := by
  rw [ids_eq, mem_freshHead, mem_touching]

theorem nodup_freshHead {s : Finset ByteStr} : (d.freshHead s).Nodup :=
  (List.mergeSort_perm _ _).nodup_iff.mpr (Platform.nodup_setToList s)

theorem nodup_ids : (d.ids txType a).Nodup := by
  rw [ids_eq]
  exact nodup_freshHead

/-- A listing is sorted by age. -/
theorem sorted_ids : (d.ids txType a).Pairwise fun x y => d.ageKey x ≤ d.ageKey y := by
  let le (x y : ByteStr) : Bool := (d.age x).1 < (d.age y).1 ∨
    ((d.age x).1 = (d.age y).1 ∧ (d.age x).2 ≤ (d.age y).2)
  have hle (x y : ByteStr) : le x y = true ↔ d.ageKey x ≤ d.ageKey y := by
    rw [decide_eq_true_eq, ageKey, ageKey, Prod.Lex.toLex_le_toLex]
  have htrans (x y z : ByteStr) (hxy : le x y = true) (hyz : le y z = true) : le x z = true :=
    (hle x z).mpr (le_trans ((hle x y).mp hxy) ((hle y z).mp hyz))
  have htotal (x y : ByteStr) : (le x y || le y x) = true := by
    rw [Bool.or_eq_true, hle, hle]
    exact le_total _ _
  rw [ids_eq]
  exact (List.pairwise_mergeSort htrans htotal _).imp fun {x y} h => (hle x y).mp h

end Diff

namespace CompositeStateReader

variable {s : StateView} {r r' : StateReader} {d d₁ d₂ : BlockDiff} {id : ByteStr}
  {txType : Option TransactionType} {a : Address} {l : List ByteStr} {asked : Int → Int → Prop}

theorem lookup_transactions_combine :
    (d₁.combine d₂).txsDiff.transactions.lookup id
      = (d₂.txsDiff.transactions.lookup id).or (d₁.txsDiff.transactions.lookup id) :=
  Dict.lookup_overlay _ _ _

/-- Transactions of a later diff are not those of an earlier one. -/
theorem lookup_of_dated (h₂ : d₂.Dated (view s d₁)) {t : Nat × ProcessedTransaction × Finset Address}
    (ht : d₂.txsDiff.transactions.lookup id = some t) :
    d₁.txsDiff.transactions.lookup id = none ∧ s.containsTransaction id = false := by
  have hnew := h₂.fresh id t ht
  rw [view_containsTransaction, Bool.or_eq_false_iff, Option.isSome_eq_false_iff,
    Option.isNone_iff_eq_none] at hnew
  exact hnew

/-- Dated diffs combine into a dated one. -/
theorem dated_combine (h₁ : d₁.Dated s) (h₂ : d₂.Dated (view s d₁)) :
    (d₁.combine d₂).Dated s where
  fresh := fun id t ht => by
    rw [lookup_transactions_combine, Option.or_eq_some_iff] at ht
    obtain ht | ⟨_, ht⟩ := ht
    · exact (lookup_of_dated h₂ ht).2
    · exact h₁.fresh id t ht
  height := fun id t ht => by
    rw [lookup_transactions_combine, Option.or_eq_some_iff] at ht
    change _ ∧ t.1 ≤ s.height + (d₁.heightDiff + d₂.heightDiff)
    obtain ht | ⟨_, ht⟩ := ht
    · have h := h₂.height id t ht
      rw [view_height] at h
      omega
    · have h := h₁.height id t ht
      omega

/-- The listing of a combination has the same transactions as the two listings. -/
theorem mem_ids_combine (h₂ : d₂.Dated (view s d₁)) :
    id ∈ (d₁.combine d₂).txsDiff.ids txType a
      ↔ id ∈ d₂.txsDiff.ids txType a ++ d₁.txsDiff.ids txType a := by
  rw [List.mem_append, Diff.mem_ids, Diff.mem_ids, Diff.mem_ids, lookup_transactions_combine]
  cases ht : d₂.txsDiff.transactions.lookup id with
  | none => simp
  | some t => simp [(lookup_of_dated h₂ ht).1]

theorem ageKey_of_lookup {d : Diff} {t : Nat × ProcessedTransaction × Finset Address}
    (ht : d.transactions.lookup id = some t) :
    d.ageKey id = toLex (-(t.1 : Int), (-t.2.1.transaction.timestamp).toInt) := by
  rw [Diff.ageKey, Diff.age, ht]

/-- The listing of a combination is the listing of the later diff in front of the earlier one's. -/
theorem ids_combine (h₁ : d₁.Dated s) (h₂ : d₂.Dated (view s d₁)) :
    TieEquiv (d₁.combine d₂).txsDiff.ageKey ((d₁.combine d₂).txsDiff.ids txType a)
      (d₂.txsDiff.ids txType a ++ d₁.txsDiff.ids txType a) := by
  have hkey₂ {id : ByteStr} (hid : id ∈ d₂.txsDiff.ids txType a) :
      ∃ t, (d₁.combine d₂).txsDiff.transactions.lookup id = some t ∧ s.height + d₁.heightDiff < t.1 ∧
        (d₁.combine d₂).txsDiff.ageKey id = d₂.txsDiff.ageKey id := by
    obtain ⟨t, ht, -⟩ := Diff.mem_ids.mp hid
    have hcombine : (d₁.combine d₂).txsDiff.transactions.lookup id = some t := by
      rw [lookup_transactions_combine, ht]
      rfl
    exact ⟨t, hcombine, (h₂.height id t ht).1,
      (ageKey_of_lookup hcombine).trans (ageKey_of_lookup ht).symm⟩
  have hkey₁ {id : ByteStr} (hid : id ∈ d₁.txsDiff.ids txType a) :
      ∃ t, (d₁.combine d₂).txsDiff.transactions.lookup id = some t ∧ t.1 ≤ s.height + d₁.heightDiff ∧
        (d₁.combine d₂).txsDiff.ageKey id = d₁.txsDiff.ageKey id := by
    obtain ⟨t, ht, -⟩ := Diff.mem_ids.mp hid
    have hnone : d₂.txsDiff.transactions.lookup id = none := by
      cases ht₂ : d₂.txsDiff.transactions.lookup id with
      | none => rfl
      | some t₂ =>
          rw [(lookup_of_dated h₂ ht₂).1] at ht
          cases ht
    have hcombine : (d₁.combine d₂).txsDiff.transactions.lookup id = some t := by
      rw [lookup_transactions_combine, hnone, ht]
      rfl
    exact ⟨t, hcombine, (h₁.height id t ht).2,
      (ageKey_of_lookup hcombine).trans (ageKey_of_lookup ht).symm⟩
  -- the transactions of the later diff are higher, so the two sorted listings join sorted
  refine TieEquiv.of_sorted ?_ Diff.sorted_ids (List.pairwise_append.mpr ⟨?_, ?_, ?_⟩)
  · refine (List.perm_ext_iff_of_nodup Diff.nodup_ids ?_).mpr fun id => mem_ids_combine h₂
    refine List.nodup_append.mpr ⟨Diff.nodup_ids, Diff.nodup_ids, fun x hx y hy hxy => ?_⟩
    obtain ⟨t, ht, hlow, -⟩ := hkey₂ hx
    obtain ⟨t', ht', hhigh, -⟩ := hkey₁ hy
    rw [hxy, ht'] at ht
    obtain rfl := Option.some.inj ht
    omega
  · refine Diff.sorted_ids.imp_of_mem fun {x y} hx hy hxy => ?_
    obtain ⟨_, _, _, hkx⟩ := hkey₂ hx
    obtain ⟨_, _, _, hky⟩ := hkey₂ hy
    rwa [hkx, hky]
  · refine Diff.sorted_ids.imp_of_mem fun {x y} hx hy hxy => ?_
    obtain ⟨_, _, _, hkx⟩ := hkey₁ hx
    obtain ⟨_, _, _, hky⟩ := hkey₁ hy
    rwa [hkx, hky]
  · intro x hx y hy
    obtain ⟨t, ht, hlow, -⟩ := hkey₂ hx
    obtain ⟨t', ht', hhigh, -⟩ := hkey₁ hy
    rw [ageKey_of_lookup ht, ageKey_of_lookup ht', Prod.Lex.toLex_le_toLex]
    exact .inl (by dsimp only; omega)

/-- Age determines the stamp. -/
theorem stamp_eq (ht : (d.txsDiff.transactions.lookup id).isSome) :
    (view s d).stamp id = some ((-(ofLex (d.txsDiff.ageKey id)).1).toNat,
      -(Int64.ofInt (ofLex (d.txsDiff.ageKey id)).2)) := by
  obtain ⟨t, ht⟩ := Option.isSome_iff_exists.mp ht
  have hinfo : (view s d).transactionInfo id = .ok (some (t.1, t.2.1)) := by
    simp only [view, ht]
  rw [StateView.stamp, hinfo, ageKey_of_lookup ht]
  simp only [ofLex_toLex, Int.neg_neg, Int.toNat_natCast, Int64.ofInt_toInt, Int64.neg_neg]

/-- A stamp of a transaction the diff does not know stays. -/
theorem stamp_of_known (hd : d.Dated s) (hknown : s.containsTransaction id = true) :
    (view s d).stamp id = s.stamp id := by
  have hnone : d.txsDiff.transactions.lookup id = none := by
    cases ht : d.txsDiff.transactions.lookup id with
    | none => rfl
    | some t =>
        rw [hd.fresh id t ht] at hknown
        cases hknown
  simp only [StateView.stamp, view, hnone]

/-- A listing of the composite reader is that of the diff in front of the inner one, for every
limit and offset. -/
theorem lists_reader (h : r.Lists Nonnegative txType a l) :
    (reader r d).Lists asked txType a (d.txsDiff.ids txType a ++ l) where
  length := by
    rw [List.length_append, ← h.length]
    cases txType <;> rfl
  page := fun limit offset _ => by
    have hlisting : (reader r d).ids txType a limit offset
        = listing (d.txsDiff.ids txType a) (r.idsLength txType a) (r.ids txType a) limit offset := by
      cases txType <;> rfl
    rw [hlisting, listing]
    by_cases hle : limit ≤ ((d.txsDiff.ids txType a).drop offset.toNat).length
    · simp only [if_pos hle, page_append_of_le hle, h.length]
    · simp only [if_neg hle]
      rw [page_append_of_lt (not_le.mp hle), h.page _ _ ⟨by omega, by omega⟩]
  known := fun id hid => by
    rw [reader, view_containsTransaction, Bool.or_eq_true]
    obtain hid | hid := List.mem_append.mp hid
    · obtain ⟨t, ht, -⟩ := Diff.mem_ids.mp hid
      exact .inl (by rw [ht]; rfl)
    · exact .inr (h.known id hid)

/-- Stacking a dated diff over readers that answer alike. -/
theorem sameAnswers_reader (h : SameAnswers Nonnegative r r') (hd : d.Dated r.toStateView) :
    SameAnswers asked (reader r d) (reader r' d) where
  view := congrArg (view · d) h.view
  ids := fun txType a => by
    obtain ⟨l, l', hl, hl', htie⟩ := h.ids txType a
    refine ⟨_, _, lists_reader hl, lists_reader hl', TieEquiv.append (TieEquiv.refl _) ?_⟩
    exact htie.congr fun id hid => stamp_of_known hd (hl.known id hid)

/-- Stacking two diffs, and stacking their combination. -/
theorem sameAnswers_combine (hr : ∀ txType a, ∃ l, r.Lists Nonnegative txType a l)
    (hs : r.Sound) (hf₁ : d₁.Fits r.toStateView) (hf₂ : d₂.Fits (view r.toStateView d₁))
    (h₁ : d₁.Dated r.toStateView) (h₂ : d₂.Dated (view r.toStateView d₁)) :
    SameAnswers asked (reader (reader r d₁) d₂) (reader r (d₁.combine d₂)) where
  view := (view_combine hs hf₁ hf₂).symm
  ids := fun txType a => by
    obtain ⟨l, hl⟩ := hr txType a
    have hold : (reader r d₁).Lists Nonnegative txType a (d₁.txsDiff.ids txType a ++ l) :=
      lists_reader hl
    refine ⟨_, _, lists_reader hold, lists_reader hl, ?_⟩
    rw [← List.append_assoc]
    refine TieEquiv.append ?_ (TieEquiv.refl _)
    have hview : (reader (reader r d₁) d₂).toStateView = view r.toStateView (d₁.combine d₂) :=
      (view_combine hs hf₁ hf₂).symm
    have hids : TieEquiv (d₁.combine d₂).txsDiff.ageKey ((d₁.combine d₂).txsDiff.ids txType a)
        (d₂.txsDiff.ids txType a ++ d₁.txsDiff.ids txType a) := ids_combine h₁ h₂
    have htie := hids.comp fun key => some ((-(ofLex key).1).toNat, -(Int64.ofInt (ofLex key).2))
    rw [hview]
    refine (htie.congr fun id hid => ?_).symm
    obtain ⟨t, ht, -⟩ := Diff.mem_ids.mp hid
    exact stamp_eq (by rw [ht]; rfl)

end CompositeStateReader

namespace SameAnswers

variable {r r' r'' : StateReader}

theorem refl (hr : ∀ txType a, ∃ l, r.Lists Nonnegative txType a l) :
    SameAnswers Nonnegative r r where
  view := rfl
  ids := fun txType a => by
    obtain ⟨l, hl⟩ := hr txType a
    exact ⟨l, l, hl, hl, TieEquiv.refl l⟩

theorem lists (h : SameAnswers Nonnegative r r') (txType : Option TransactionType) (a : Address) :
    ∃ l, r.Lists Nonnegative txType a l := by
  obtain ⟨l, _, hl, -, -⟩ := h.ids txType a
  exact ⟨l, hl⟩

theorem symm {asked : Int → Int → Prop} (h : SameAnswers asked r r') : SameAnswers asked r' r where
  view := h.view.symm
  ids := fun txType a => by
    obtain ⟨l, l', hl, hl', htie⟩ := h.ids txType a
    exact ⟨l', l, hl', hl, h.view ▸ htie.symm⟩

theorem trans (h : SameAnswers Nonnegative r r') (h' : SameAnswers Nonnegative r' r'') :
    SameAnswers Nonnegative r r'' where
  view := h.view.trans h'.view
  ids := fun txType a => by
    obtain ⟨l, l', hl, hl', htie⟩ := h.ids txType a
    obtain ⟨m, m', hm, hm', htie'⟩ := h'.ids txType a
    -- the pages of the reader between them are pages of one list
    obtain rfl : l' = m := eq_of_page fun limit offset hlimit hoffset =>
      (hl'.page limit offset ⟨hlimit, hoffset⟩).symm.trans (hm.page limit offset ⟨hlimit, hoffset⟩)
    exact ⟨l, m', hl, hm', htie.trans (h.view ▸ htie')⟩

end SameAnswers

end Vsys
