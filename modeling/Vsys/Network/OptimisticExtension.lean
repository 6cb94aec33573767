import Mathlib.Data.List.TakeWhile
import Vsys.Network.ExtensionBlocks

/-!
# Loading the next extension ahead of time

`OptimisticExtensionLoader` passes an extension upstream and at once asks for the one after it, in
the hope that the next request will be for just that.  The requests it has sent downstream are
answered in their order, or not at all; which of them an answer belongs to, the loader keeps track
of with the identifiers it expects and a flag.
-/

namespace Vsys

open Lib

namespace OptimisticExtensionLoader

/-- What a request that was sent downstream is for: an upstream request, or the extension that is
hoped to be requested next, or one that was hoped for until something else was requested. -/
inductive Request where
  | upstream
  | prefetch
  | superseded
  deriving DecidableEq

/-- What became of the answers until now. -/
structure Accounts (answered : List Request) (passed : List Nat) (discarded : List (Nat × Request)) :
    Prop where
  discards : ∀ answer ∈ discarded, answer.2 = .superseded
  passes : ∀ n, answered[n]? = some .upstream → n ∈ passed
  once : passed.Nodup
  numbered : ∀ n ∈ passed, n < answered.length

namespace Accounts

variable {answered : List Request} {passed : List Nat} {discarded : List (Nat × Request)}
  {q : Request} {n : Nat}

/-- An answer that is no answer to an upstream request. -/
theorem keep (h : Accounts answered passed discarded) (hq : q ≠ .upstream) :
    Accounts (answered ++ [q]) passed discarded where
  discards := h.discards
  passes := by
    intro n hn
    obtain hlt | hge := Nat.lt_or_ge n answered.length
    · rw [List.getElem?_append_left hlt] at hn
      exact h.passes n hn
    · rw [List.getElem?_append_right hge, List.getElem?_singleton] at hn
      split at hn
      · exact absurd (Option.some.inj hn) hq
      · cases hn
  once := h.once
  numbered := by
    intro n hn
    rw [List.length_append]
    exact Nat.lt_add_right _ (h.numbered n hn)

/-- An answer that is passed upstream at once. -/
theorem pass (h : Accounts answered passed discarded) (q : Request) :
    Accounts (answered ++ [q]) (passed ++ [answered.length]) discarded where
  discards := h.discards
  passes := by
    intro n hn
    rw [List.mem_append, List.mem_singleton]
    obtain hlt | hge := Nat.lt_or_ge n answered.length
    · rw [List.getElem?_append_left hlt] at hn
      exact .inl (h.passes n hn)
    · have hlt := (List.getElem?_eq_some_iff.mp hn).1
      rw [List.length_append, List.length_singleton] at hlt
      exact .inr (by omega)
  once := by
    rw [List.nodup_append]
    refine ⟨h.once, List.nodup_singleton _, fun n hn m hm => ?_⟩
    rw [List.mem_singleton.mp hm]
    exact (h.numbered n hn).ne
  numbered := by
    intro n hn
    rw [List.length_append, List.length_singleton]
    obtain hn | hn := List.mem_append.mp hn
    · exact Nat.lt_succ_of_lt (h.numbered n hn)
    · rw [List.mem_singleton.mp hn]
      exact Nat.lt_succ_self _

/-- An answer that was held until now is passed upstream. -/
theorem release (h : Accounts answered passed discarded) (hn : n < answered.length)
    (hnotin : n ∉ passed) : Accounts answered (passed ++ [n]) discarded where
  discards := h.discards
  passes := fun m hm => List.mem_append_left _ (h.passes m hm)
  once := by
    rw [List.nodup_append]
    refine ⟨h.once, List.nodup_singleton _, fun m hm m' hm' heq => hnotin ?_⟩
    rw [← List.mem_singleton.mp hm', ← heq]
    exact hm
  numbered := by
    intro m hm
    obtain hm | hm := List.mem_append.mp hm
    · exact h.numbered m hm
    · rw [List.mem_singleton.mp hm]
      exact hn

/-- An answer to a superseded prefetch is discarded. -/
theorem discard (h : Accounts answered passed discarded) (n : Nat) :
    Accounts answered passed (discarded ++ [(n, .superseded)]) where
  discards := by
    intro answer hanswer
    obtain hold | hnew := List.mem_append.mp hanswer
    · exact h.discards answer hold
    · rw [List.mem_singleton.mp hnew]
  passes := h.passes
  once := h.once
  numbered := h.numbered

end Accounts

end OptimisticExtensionLoader

section Platform

variable [Platform]

/-- The fields of `OptimisticExtensionLoader`. -/
structure OptimisticExtensionLoader where
  hopefullyNextIds : List ByteStr
  nextExtensionBlocks : List Block
  discardNextBlocks : Bool

namespace OptimisticExtensionLoader

/-- `loadNextPart`: one block usually means that the end of the chain is reached. -/
def loadNextPart (o : OptimisticExtensionLoader) (blocks : List Block) :
    OptimisticExtensionLoader × List Effect :=
  if 1 < blocks.length then
    let ids := (blocks.map Block.uniqueId).reverse.take 100
    ({ o with hopefullyNextIds := ids }, [.write (.loadBlockchainExtension ids)])
  else (o, [])

/-- `channelRead`. -/
def channelRead (o : OptimisticExtensionLoader) (msg : Signal) :
    OptimisticExtensionLoader × List Effect :=
  match msg with
  | .extensionBlocks extension =>
      if o.discardNextBlocks then ({ o with discardNextBlocks := false }, [])
      else if extension = [] then ({ o with hopefullyNextIds := [] }, [.fireChannelRead msg])
      else if o.hopefullyNextIds = [] then
        ((o.loadNextPart extension).1, (o.loadNextPart extension).2 ++ [.fireChannelRead msg])
      else ({ o with nextExtensionBlocks := extension }, [])
  | msg => (o, [.fireChannelRead msg])

/-- `write` of a request for an extension; the head of no identifiers raises. -/
def loadBlockchainExtension (o : OptimisticExtensionLoader) (localIds : List ByteStr) :
    OptimisticExtensionLoader × List Effect :=
  if o.hopefullyNextIds = localIds then
    if o.nextExtensionBlocks = [] then ({ o with hopefullyNextIds := [] }, [])
    else
      ({ (o.loadNextPart o.nextExtensionBlocks).1 with nextExtensionBlocks := [] },
        .fireChannelRead (.extensionBlocks o.nextExtensionBlocks)
          :: (o.loadNextPart o.nextExtensionBlocks).2)
  else if o.hopefullyNextIds = [] then (o, [.write (.loadBlockchainExtension localIds)])
  else
    match localIds with
    | [] => (o, [.raised (.raised .noSuchElement)])
    | head :: _ =>
        let notYetRequestedIds := o.hopefullyNextIds.dropWhile (· ≠ head)
        let discardNextBlocks :=
          if notYetRequestedIds = [] ∨ ¬ notYetRequestedIds <:+: o.hopefullyNextIds then
            decide (o.nextExtensionBlocks = [])
          else o.discardNextBlocks
        (⟨[], [], discardNextBlocks⟩, [.write (.loadBlockchainExtension localIds)])

/-- `write`. -/
def write (o : OptimisticExtensionLoader) (msg : Signal) :
    OptimisticExtensionLoader × List Effect :=
  match msg with
  | .loadBlockchainExtension localIds => o.loadBlockchainExtension localIds
  | msg => (o, [.write msg])

section Loader

variable {o : OptimisticExtensionLoader} {extension : List Block} {localIds : List ByteStr}

/-- A loader that discards the next blocks discards them. -/
theorem channelRead_of_discard (h : o.discardNextBlocks = true) :
    o.channelRead (.extensionBlocks extension) = ({ o with discardNextBlocks := false }, []) := by
  rw [channelRead, if_pos h]

/-- An empty extension is passed on, and nothing is expected behind it. -/
theorem channelRead_nil (h : o.discardNextBlocks = false) :
    o.channelRead (.extensionBlocks [])
      = ({ o with hopefullyNextIds := [] }, [.fireChannelRead (.extensionBlocks [])]) := by
  rw [channelRead, h]
  rfl

/-- A resting loader passes blocks on and asks for the next ones. -/
theorem channelRead_of_resting (h : o.discardNextBlocks = false) (hne : extension ≠ [])
    (hids : o.hopefullyNextIds = []) :
    o.channelRead (.extensionBlocks extension) = ((o.loadNextPart extension).1,
      (o.loadNextPart extension).2 ++ [.fireChannelRead (.extensionBlocks extension)]) := by
  rw [channelRead, if_neg (by rw [h]; exact Bool.false_ne_true), if_neg hne, if_pos hids]

/-- An expecting loader keeps the blocks back. -/
theorem channelRead_of_expecting (h : o.discardNextBlocks = false) (hne : extension ≠ [])
    (hids : o.hopefullyNextIds ≠ []) :
    o.channelRead (.extensionBlocks extension)
      = ({ o with nextExtensionBlocks := extension }, []) := by
  rw [channelRead, if_neg (by rw [h]; exact Bool.false_ne_true), if_neg hne, if_neg hids]

/-- The next part is asked for, with identifiers to expect, or it is not. -/
theorem loadNextPart_cases (o : OptimisticExtensionLoader) (extension : List Block) :
    (1 < extension.length ∧ ∃ ids, ids ≠ [] ∧ o.loadNextPart extension
      = ({ o with hopefullyNextIds := ids }, [.write (.loadBlockchainExtension ids)])) ∨
    (extension.length ≤ 1 ∧ o.loadNextPart extension = (o, [])) := by
  by_cases hlength : 1 < extension.length
  · refine .inl ⟨hlength, _, ?_, if_pos hlength⟩
    intro hnil
    have := congrArg List.length hnil
    rw [List.length_take, List.length_reverse, List.length_map, List.length_nil] at this
    omega
  · exact .inr ⟨Nat.le_of_not_lt hlength, if_neg hlength⟩

/-- A request for what is expected, while the extension is not there yet. -/
theorem write_expected (hids : o.hopefullyNextIds = localIds) (hnext : o.nextExtensionBlocks = []) :
    o.loadBlockchainExtension localIds = ({ o with hopefullyNextIds := [] }, []) := by
  unfold loadBlockchainExtension
  rw [if_pos hids, if_pos hnext]

/-- A request for what is expected, with the extension at hand. -/
theorem write_loaded (hids : o.hopefullyNextIds = localIds) (hnext : o.nextExtensionBlocks ≠ []) :
    o.loadBlockchainExtension localIds
      = ({ (o.loadNextPart o.nextExtensionBlocks).1 with nextExtensionBlocks := [] },
        .fireChannelRead (.extensionBlocks o.nextExtensionBlocks)
          :: (o.loadNextPart o.nextExtensionBlocks).2) := by
  unfold loadBlockchainExtension
  rw [if_pos hids, if_neg hnext]

/-- A resting loader passes a request on. -/
theorem write_of_resting (hne : localIds ≠ []) (hids : o.hopefullyNextIds = []) :
    o.loadBlockchainExtension localIds
      = (o, [.write (.loadBlockchainExtension localIds)]) := by
  unfold loadBlockchainExtension
  rw [if_neg (by rw [hids]; exact fun h => hne h.symm), if_pos hids]

/-- A request without signatures to a loader that expects blocks raises. -/
theorem write_nil (hids : o.hopefullyNextIds ≠ []) :
    o.loadBlockchainExtension [] = (o, [.raised (.raised .noSuchElement)]) := by
  rw [loadBlockchainExtension, if_neg hids, if_neg hids]

/-- A request for something else is sent on.  The next extension is discarded when the request
starts with a block that is not expected, and no extension is held. -/
theorem write_unexpected {head : ByteStr} {tail : List ByteStr}
    (hids : o.hopefullyNextIds ≠ []) (hne : o.hopefullyNextIds ≠ head :: tail) :
    o.loadBlockchainExtension (head :: tail)
      = (⟨[], [], if head ∈ o.hopefullyNextIds then o.discardNextBlocks
          else decide (o.nextExtensionBlocks = [])⟩,
        [.write (.loadBlockchainExtension (head :: tail))]) := by
  rw [loadBlockchainExtension, if_neg hne, if_neg hids]
  dsimp only
  have hslice : o.hopefullyNextIds.dropWhile (· ≠ head) <:+: o.hopefullyNextIds :=
    (List.dropWhile_suffix _).isInfix
  have hempty : o.hopefullyNextIds.dropWhile (· ≠ head) = [] ↔ head ∉ o.hopefullyNextIds := by
    rw [List.dropWhile_eq_nil_iff]
    constructor
    · intro h hmem
      have := h head hmem
      simp at this
    · intro h id hid
      simp only [ne_eq, decide_eq_true_eq]
      exact fun heq => h (heq ▸ hid)
  by_cases hmem : head ∈ o.hopefullyNextIds
  · rw [if_pos hmem, if_neg]
    rintro (hnil | hnot)
    · exact hempty.mp hnil hmem
    · exact hnot hslice
  · rw [if_neg hmem, if_pos (.inl (hempty.mpr hmem))]

end Loader

/-- The loader, the requests that it has sent downstream and that may still be answered, oldest
first, and what became of the answers: `held` is the one that `nextExtensionBlocks` came with.
Answers are numbered in the order in which they come. -/
structure Session where
  loader : OptimisticExtensionLoader
  outstanding : List Request
  answered : List Request
  held : Option (Nat × Request)
  passed : List Nat
  discarded : List (Nat × Request)
  swallowed : Nat

namespace Session

/-- Upstream requests an extension, or the extension for an outstanding request comes, while so many
before it stay without an answer. -/
inductive Event
  | request (localIds : List ByteStr)
  | answer (unanswered : Nat) (extension : List Block)

/-- Before the first request. -/
def start : Session := ⟨⟨[], [], false⟩, [], [], none, [], [], 0⟩

/-- Whether an effect passes an extension upstream. -/
def isPassed : Effect → Bool
  | .fireChannelRead (.extensionBlocks _) => true
  | _ => false

/-- The requests that some effects send downstream. -/
def sent (request : Request) (effects : List Effect) : List Request :=
  effects.filterMap fun
    | .write (.loadBlockchainExtension _) => some request
    | _ => none

/-- A request from upstream: it is answered with the extension held, or it is sent downstream, or
the prefetch stands for it from now on. -/
def request (s : Session) (localIds : List ByteStr) : Session × List Effect :=
  let r := s.loader.write (.loadBlockchainExtension localIds)
  if r.2.any isPassed then
    ({ s with
        loader := r.1
        outstanding := s.outstanding ++ sent .prefetch r.2
        held := none
        passed := s.passed ++ (s.held.map Prod.fst).toList }, r.2)
  else if r.2 = [] then
    ({ s with
        loader := r.1
        outstanding := s.outstanding.map fun q => if q = .prefetch then .upstream else q
        swallowed := if .prefetch ∈ s.outstanding then s.swallowed else s.swallowed + 1 }, r.2)
  else if sent .upstream r.2 = [] then ({ s with loader := r.1 }, r.2)
  else
    ({ s with
        loader := r.1
        outstanding := (s.outstanding.map fun q => if q = .prefetch then .superseded else q)
          ++ sent .upstream r.2
        held := none
        discarded := s.discarded ++ (s.held.map fun answer =>
          (answer.1, if answer.2 = .prefetch then .superseded else answer.2)).toList }, r.2)

/-- An answer: it is passed upstream, or discarded, or held in the place of the one held before. -/
def answer (s : Session) (unanswered : Nat) (extension : List Block) : Session × List Effect :=
  match s.outstanding.drop unanswered with
  | [] => (s, [])
  | q :: later =>
      let r := s.loader.channelRead (.extensionBlocks extension)
      let number := s.answered.length
      let s' := { s with
        loader := r.1
        outstanding := later ++ sent .prefetch r.2
        answered := s.answered ++ [q] }
      if r.2.any isPassed then ({ s' with passed := s.passed ++ [number] }, r.2)
      else if s.loader.discardNextBlocks then
        ({ s' with discarded := s.discarded ++ [(number, q)] }, r.2)
      else
        ({ s' with held := some (number, q), discarded := s.discarded ++ s.held.toList }, r.2)

/-- One event. -/
def step (s : Session) : Event → Session × List Effect
  | .request localIds => s.request localIds
  | .answer unanswered extension => s.answer unanswered extension

/-- An answer belongs to an outstanding request. -/
def Admissible (s : Session) : Event → Prop
  | .request _ => True
  | .answer unanswered _ => unanswered < s.outstanding.length

/-- What the loader is for: it discards only answers to prefetches that were superseded, it passes
every answer to an upstream request upstream and no answer twice, and every upstream request is
answered at once, sent downstream, or has a prefetch stand for it. -/
structure Faithful (s : Session) : Prop where
  discards : ∀ answer ∈ s.discarded, answer.2 = .superseded
  passes : ∀ n, s.answered[n]? = some .upstream → n ∈ s.passed
  once : s.passed.Nodup
  answers : s.swallowed = 0

/-- The steps the loader keeps track of.  A request finds some identifiers to compare with and, when
the loader has expected ids and holds no extension, a prefetch to come, unless it starts with one of
these and is another request.  An answer that is to be discarded has not been jumped over, and the
extension that starts a prefetch answers the last of the outstanding requests. -/
def Orderly (s : Session) : Event → Prop
  | .request localIds =>
      (localIds = [] → s.loader.hopefullyNextIds ≠ []) ∧
      (s.loader.hopefullyNextIds ≠ [] → s.loader.nextExtensionBlocks = [] →
        .prefetch ∉ s.outstanding →
          s.loader.hopefullyNextIds ≠ localIds ∧
            localIds.head?.all (· ∈ s.loader.hopefullyNextIds))
  | .answer unanswered extension =>
      (s.loader.discardNextBlocks = true → .superseded ∉ s.outstanding.take unanswered) ∧
      (s.loader.discardNextBlocks = false → s.loader.hopefullyNextIds = [] → 1 < extension.length →
        s.outstanding.drop (unanswered + 1) = [])

instance (s : Session) (e : Event) : Decidable (s.Admissible e) :=
  match e with
  | .request _ => isTrue trivial
  | .answer unanswered _ => inferInstanceAs (Decidable (unanswered < s.outstanding.length))

instance (s : Session) (e : Event) : Decidable (s.Orderly e) :=
  match e with
  | .request _ => inferInstanceAs (Decidable (_ ∧ _))
  | .answer _ _ => inferInstanceAs (Decidable (_ ∧ _))

variable {s : Session} {e : Event} {localIds : List ByteStr} {unanswered : Nat}
  {extension : List Block}

/-- What the loader's three fields say about the outstanding requests, and what became of the
answers until now. -/
structure Tracked (s : Session) : Prop where
  resting : s.loader.hopefullyNextIds = [] →
    s.loader.nextExtensionBlocks = [] ∧ s.held = none ∧ .prefetch ∉ s.outstanding
  waiting : s.loader.hopefullyNextIds ≠ [] → s.loader.nextExtensionBlocks = [] →
    s.loader.discardNextBlocks = false ∧ s.held = none ∧
      (s.outstanding = [] ∨ s.outstanding = [.prefetch])
  holding : s.loader.hopefullyNextIds ≠ [] → s.loader.nextExtensionBlocks ≠ [] →
    s.loader.discardNextBlocks = false ∧ s.outstanding = [] ∧
      ∃ n, s.held = some (n, .prefetch) ∧ n < s.answered.length ∧ n ∉ s.passed
  discarding : s.loader.discardNextBlocks = true → ∃ later, s.outstanding = .superseded :: later
  accounts : Accounts s.answered s.passed s.discarded
  answers : s.swallowed = 0

/-- A tracked session is faithful. -/
theorem Tracked.faithful (hs : s.Tracked) : s.Faithful :=
  ⟨hs.accounts.discards, hs.accounts.passes, hs.accounts.once, hs.answers⟩

/-- A session is tracked from its start. -/
theorem tracked_start : start.Tracked where
  resting := fun _ => ⟨rfl, rfl, List.not_mem_nil⟩
  waiting := fun h => absurd rfl h
  holding := fun h => absurd rfl h
  discarding := fun h => by cases h
  accounts := by
    refine ⟨fun _ h => ?_, fun _ h => ?_, List.nodup_nil, fun _ h => ?_⟩
    · cases h
    · cases h
    · cases h
  answers := rfl

/-- The flag is set in no state in which something is expected. -/
theorem Tracked.ids_of_discard (hs : s.Tracked) (h : s.loader.discardNextBlocks = true) :
    s.loader.hopefullyNextIds = [] := by
  by_contra hne
  by_cases hnext : s.loader.nextExtensionBlocks = []
  · rw [(hs.waiting hne hnext).1] at h
    cases h
  · rw [(hs.holding hne hnext).1] at h
    cases h

section Answer

variable {q : Request} {later : List Request} {loader : OptimisticExtensionLoader}
  {effects : List Effect}

/-- Blocks that are passed on count as answered, with the requests that are sent for more. -/
theorem answer_passed (hdrop : s.outstanding.drop unanswered = q :: later)
    (hread : s.loader.channelRead (.extensionBlocks extension) = (loader, effects))
    (hpassed : effects.any isPassed = true) :
    (s.answer unanswered extension).1 = ⟨loader, later ++ sent .prefetch effects,
      s.answered ++ [q], s.held, s.passed ++ [s.answered.length], s.discarded, s.swallowed⟩ := by
  simp only [answer, hdrop, hread, hpassed, if_true]

/-- Discarded blocks count as answered, and the loader discards no more. -/
theorem answer_discarded (hdrop : s.outstanding.drop unanswered = q :: later)
    (hdiscard : s.loader.discardNextBlocks = true) :
    (s.answer unanswered extension).1 = ⟨{ s.loader with discardNextBlocks := false }, later,
      s.answered ++ [q], s.held, s.passed, s.discarded ++ [(s.answered.length, q)],
      s.swallowed⟩ := by
  simp [answer, hdrop, channelRead_of_discard hdiscard, hdiscard, sent]

/-- Blocks that are kept back are held with the request they answer. -/
theorem answer_held (hdrop : s.outstanding.drop unanswered = q :: later)
    (hdiscard : s.loader.discardNextBlocks = false)
    (hread : s.loader.channelRead (.extensionBlocks extension) = (loader, [])) :
    (s.answer unanswered extension).1 = ⟨loader, later, s.answered ++ [q],
      some (s.answered.length, q), s.passed, s.discarded ++ s.held.toList, s.swallowed⟩ := by
  simp [answer, hdrop, hread, hdiscard, sent]

end Answer

/-- While something is expected, an answer can only be the one to the prefetch. -/
theorem Tracked.answers_prefetch (hs : s.Tracked) (hids : s.loader.hopefullyNextIds ≠ [])
    {q : Request} {later : List Request} (hdrop : s.outstanding.drop unanswered = q :: later) :
    q = .prefetch ∧ later = [] ∧ s.loader.nextExtensionBlocks = [] ∧ s.held = none := by
  by_cases hnext : s.loader.nextExtensionBlocks = []
  · obtain ⟨-, hheld, hout | hout⟩ := hs.waiting hids hnext
    · rw [hout, List.drop_nil] at hdrop
      cases hdrop
    · rw [hout] at hdrop
      cases unanswered with
      | zero =>
          obtain ⟨rfl, rfl⟩ := List.cons.inj hdrop
          exact ⟨rfl, rfl, hnext, hheld⟩
      | succ n =>
          rw [List.drop_succ_cons, List.drop_nil] at hdrop
          cases hdrop
  · obtain ⟨-, hout, -⟩ := hs.holding hids hnext
    rw [hout, List.drop_nil] at hdrop
    cases hdrop

/-- An answer keeps the loader on track. -/
theorem Tracked.answer (hs : s.Tracked) (hadmissible : s.Admissible (.answer unanswered extension))
    (horderly : s.Orderly (.answer unanswered extension)) :
    (s.answer unanswered extension).1.Tracked := by
  have hdrop : s.outstanding.drop unanswered
      = s.outstanding[unanswered] :: s.outstanding.drop (unanswered + 1) :=
    List.drop_eq_getElem_cons hadmissible
  have hlater : ∀ q ∈ s.outstanding.drop (unanswered + 1), q ∈ s.outstanding :=
    fun q => List.mem_of_mem_drop
  have hlast := horderly.2
  generalize s.outstanding[unanswered] = q at hdrop
  generalize s.outstanding.drop (unanswered + 1) = later at hdrop hlater hlast
  cases hdiscard : s.loader.discardNextBlocks with
  | true =>
      -- the flag is set for the first of the outstanding requests, and it is the one answered
      obtain ⟨later', hout⟩ := hs.discarding hdiscard
      have hfirst : unanswered = 0 := by
        cases unanswered with
        | zero => rfl
        | succ n =>
            refine absurd ?_ (horderly.1 hdiscard)
            rw [hout]
            exact List.mem_cons_self
      subst hfirst
      rw [List.drop_zero, hout] at hdrop
      obtain ⟨rfl, rfl⟩ := List.cons.inj hdrop
      have hids := hs.ids_of_discard hdiscard
      obtain ⟨hnext, hheld, hnone⟩ := hs.resting hids
      rw [answer_discarded (by rw [List.drop_zero, hout]) hdiscard]
      exact ⟨fun _ => ⟨hnext, hheld, fun hmem => hnone (hlater _ hmem)⟩, fun h => absurd hids h,
        fun h => absurd hids h, fun h => (by cases h),
        (hs.accounts.keep (by decide)).discard _, hs.answers⟩
  | false =>
      by_cases hempty : extension = []
      · -- an empty extension goes upstream, and nothing is expected any more
        subst hempty
        have hstate : s.loader.nextExtensionBlocks = [] ∧ s.held = none ∧ .prefetch ∉ later := by
          by_cases hids : s.loader.hopefullyNextIds = []
          · obtain ⟨hnext, hheld, hnone⟩ := hs.resting hids
            exact ⟨hnext, hheld, fun hmem => hnone (hlater _ hmem)⟩
          · obtain ⟨-, rfl, hnext, hheld⟩ := hs.answers_prefetch hids hdrop
            exact ⟨hnext, hheld, List.not_mem_nil⟩
        rw [answer_passed hdrop (channelRead_nil hdiscard) rfl]
        refine ⟨fun _ => ⟨hstate.1, hstate.2.1, ?_⟩, fun h => absurd rfl h, fun h => absurd rfl h,
          fun h => (by rw [hdiscard] at h; cases h), hs.accounts.pass q, hs.answers⟩
        simpa [sent] using hstate.2.2
      · by_cases hids : s.loader.hopefullyNextIds = []
        · -- nothing is expected: the extension goes upstream, and the next one may be asked for
          obtain ⟨hnext, hheld, hnone⟩ := hs.resting hids
          have hread := channelRead_of_resting hdiscard hempty hids
          obtain ⟨hlength, ids, hne, hpart⟩ | ⟨-, hpart⟩ := loadNextPart_cases s.loader extension
          · rw [hpart] at hread
            rw [answer_passed hdrop hread rfl, hlast hdiscard hids hlength]
            exact ⟨fun h => absurd h hne, fun _ _ => ⟨hdiscard, hheld, .inr rfl⟩,
              fun _ h => absurd hnext h, fun h => (by rw [hdiscard] at h; cases h),
              hs.accounts.pass q, hs.answers⟩
          · rw [hpart] at hread
            rw [answer_passed hdrop hread rfl]
            refine ⟨fun _ => ⟨hnext, hheld, ?_⟩, fun h => absurd hids h, fun h => absurd hids h,
              fun h => (by rw [hdiscard] at h; cases h), hs.accounts.pass q, hs.answers⟩
            intro hmem
            rw [show sent .prefetch ([] ++ [Effect.fireChannelRead (.extensionBlocks extension)])
              = [] from rfl, List.append_nil] at hmem
            exact hnone (hlater _ hmem)
        · -- the extension that is hoped to be requested next is held
          obtain ⟨rfl, rfl, hnext, hheld⟩ := hs.answers_prefetch hids hdrop
          rw [answer_held hdrop hdiscard (channelRead_of_expecting hdiscard hempty hids), hheld]
          refine ⟨fun h => absurd h hids, fun _ h => absurd h hempty,
            fun _ _ => ⟨hdiscard, rfl, _, rfl, ?_, ?_⟩,
            fun h => (by rw [hdiscard] at h; cases h), ?_, hs.answers⟩
          · rw [List.length_append, List.length_singleton]
            exact Nat.lt_succ_self _
          · exact fun hmem => Nat.lt_irrefl _ (hs.accounts.numbered _ hmem)
          · rw [Option.toList_none, List.append_nil]
            exact hs.accounts.keep (by decide)

section Sent

variable {loader : OptimisticExtensionLoader}

/-- A request for the held blocks is answered with them. -/
theorem request_loaded {effects : List Effect}
    (hwrite : s.loader.loadBlockchainExtension localIds = (loader, effects))
    (hpassed : effects.any isPassed = true) :
    (s.request localIds).1 = ⟨loader, s.outstanding ++ sent .prefetch effects, s.answered, none,
      s.passed ++ (s.held.map Prod.fst).toList, s.discarded, s.swallowed⟩ := by
  simp only [request, write, hwrite, hpassed, if_true]

/-- A request for expected blocks makes the request in flight one of the node's own. -/
theorem request_expected (hwrite : s.loader.loadBlockchainExtension localIds = (loader, [])) :
    (s.request localIds).1 = ⟨loader,
      s.outstanding.map fun q => if q = .prefetch then .upstream else q, s.answered, s.held,
      s.passed, s.discarded,
      if .prefetch ∈ s.outstanding then s.swallowed else s.swallowed + 1⟩ := by
  simp [request, write, hwrite]

/-- A request that raises changes nothing. -/
theorem request_raised {e : Fault}
    (hwrite : s.loader.loadBlockchainExtension localIds = (s.loader, [.raised e])) :
    (s.request localIds).1 = s := by
  simp [request, write, hwrite, isPassed, sent]

/-- A request that is sent supersedes what the loader asked for by itself. -/
theorem request_sent (hwrite : s.loader.loadBlockchainExtension localIds
      = (loader, [.write (.loadBlockchainExtension localIds)])) :
    (s.request localIds).1 = ⟨loader,
      (s.outstanding.map fun q => if q = .prefetch then .superseded else q) ++ [.upstream],
      s.answered, none, s.passed,
      s.discarded ++ (s.held.map fun answer =>
        (answer.1, if answer.2 = .prefetch then .superseded else answer.2)).toList,
      s.swallowed⟩ := by
  simp [request, write, hwrite, isPassed, sent]

end Sent

/-- A request keeps the loader on track. -/
theorem Tracked.request (hs : s.Tracked) (horderly : s.Orderly (.request localIds)) :
    (s.request localIds).1.Tracked := by
  obtain ⟨hsome, hfresh⟩ := horderly
  have hupstream : Request.prefetch ∉ [Request.upstream] := by decide
  have hsuperseded : Request.prefetch ∉ [Request.superseded, Request.upstream] := by decide
  by_cases hids : s.loader.hopefullyNextIds = []
  · -- nothing is expected: the request is sent downstream
    have hne : localIds ≠ [] := fun h => hsome h hids
    obtain ⟨hnext, hheld, hnone⟩ := hs.resting hids
    have hmap : (s.outstanding.map fun q => if q = .prefetch then .superseded else q)
        = s.outstanding := by
      refine (List.map_congr_left fun q hq => ?_).trans (List.map_id _)
      exact if_neg fun h => hnone (by rw [← h]; exact hq)
    rw [request_sent (write_of_resting hne hids), hmap, hheld]
    refine ⟨fun _ => ⟨hnext, rfl, ?_⟩, fun h => absurd hids h, fun h => absurd hids h, ?_, ?_,
      hs.answers⟩
    · rw [List.mem_append, List.mem_singleton]
      rintro (h | h)
      · exact hnone h
      · cases h
    · intro h
      obtain ⟨later, hout⟩ := hs.discarding h
      exact ⟨later ++ [.upstream], by rw [hout, List.cons_append]⟩
    · rw [Option.map_none, Option.toList_none, List.append_nil]
      exact hs.accounts
  · by_cases heq : s.loader.hopefullyNextIds = localIds
    · by_cases hnext : s.loader.nextExtensionBlocks = []
      · -- the prefetch stands for the request from now on
        have hmem : .prefetch ∈ s.outstanding := by
          by_contra hmem
          exact (hfresh hids hnext hmem).1 heq
        obtain ⟨hdiscard, hheld, hout | hout⟩ := hs.waiting hids hnext
        · rw [hout] at hmem
          cases hmem
        · rw [request_expected (write_expected heq hnext), hheld, if_pos hmem, hout]
          refine ⟨fun _ => ⟨hnext, rfl, hupstream⟩, fun h => absurd rfl h, fun h => absurd rfl h,
            fun h => ?_, hs.accounts, hs.answers⟩
          rw [hdiscard] at h
          cases h
      · -- the extension held answers the request, and the next one may be asked for
        obtain ⟨hdiscard, hout, n, hheld, hn, hnotin⟩ := hs.holding hids hnext
        have hwrite := write_loaded heq hnext
        obtain ⟨-, ids, hne, hpart⟩ | ⟨-, hpart⟩ :=
          loadNextPart_cases s.loader s.loader.nextExtensionBlocks
        · rw [hpart] at hwrite
          rw [request_loaded hwrite rfl, hheld, hout]
          refine ⟨fun h => absurd h hne, fun _ _ => ⟨hdiscard, rfl, .inr rfl⟩,
            fun _ h => absurd rfl h, fun h => ?_, hs.accounts.release hn hnotin, hs.answers⟩
          rw [hdiscard] at h
          cases h
        · rw [hpart] at hwrite
          rw [request_loaded hwrite rfl, hheld, hout]
          refine ⟨fun h => absurd h hids, fun _ _ => ⟨hdiscard, rfl, .inl rfl⟩,
            fun _ h => absurd rfl h, fun h => ?_, hs.accounts.release hn hnotin, hs.answers⟩
          rw [hdiscard] at h
          cases h
    · cases localIds with
      | nil =>
          rw [request_raised (write_nil hids)]
          exact hs
      | cons head tail =>
          -- what was hoped for is superseded
          rw [request_sent (write_unexpected hids heq)]
          by_cases hnext : s.loader.nextExtensionBlocks = []
          · obtain ⟨hdiscard, hheld, hout | hout⟩ := hs.waiting hids hnext
            · have hmem : head ∈ s.loader.hopefullyNextIds := by
                refine of_decide_eq_true (hfresh hids hnext ?_).2
                rw [hout]
                exact List.not_mem_nil
              rw [if_pos hmem, hdiscard, hheld, hout]
              refine ⟨fun _ => ⟨rfl, rfl, hupstream⟩, fun h => absurd rfl h,
                fun h => absurd rfl h, fun h => (by cases h), ?_, hs.answers⟩
              rw [Option.map_none, Option.toList_none, List.append_nil]
              exact hs.accounts
            · rw [hheld, hout]
              refine ⟨fun _ => ⟨rfl, rfl, hsuperseded⟩, fun h => absurd rfl h,
                fun h => absurd rfl h, fun _ => ⟨_, rfl⟩, ?_, hs.answers⟩
              rw [Option.map_none, Option.toList_none, List.append_nil]
              exact hs.accounts
          · obtain ⟨hdiscard, hout, n, hheld, -, -⟩ := hs.holding hids hnext
            rw [hout, hheld]
            refine ⟨fun _ => ⟨rfl, rfl, hupstream⟩, fun h => absurd rfl h,
              fun h => absurd rfl h, fun h => ?_, hs.accounts.discard n, hs.answers⟩
            exfalso
            change (if head ∈ s.loader.hopefullyNextIds then s.loader.discardNextBlocks
              else decide (s.loader.nextExtensionBlocks = [])) = true at h
            split at h
            · rw [hdiscard] at h
              cases h
            · exact hnext (of_decide_eq_true h)

/-- One step keeps the loader on track. -/
theorem Tracked.step (hs : s.Tracked) (hadmissible : s.Admissible e) (horderly : s.Orderly e) :
    (s.step e).1.Tracked := by
  cases e with
  | request localIds => exact hs.request horderly
  | answer unanswered extension => exact hs.answer hadmissible horderly

/-- In a run of steps that the loader keeps track of, it is faithful in every state. -/
theorem faithful_of_orderly (events : List Event)
    (hevents : Transducer.Along step Admissible start events)
    (horderly : Transducer.Along step Orderly start events) :
    ∀ run, run <+: events → (Transducer.after step start run).Faithful := by
  intro run hrun
  obtain ⟨later, rfl⟩ := hrun
  have hboth := Transducer.along_and.mpr
    ⟨(Transducer.along_append.mp hevents).1, (Transducer.along_append.mp horderly).1⟩
  -- Being on track is what one step keeps, and a run of them with it.
  exact (hboth.after (I := Tracked) (fun s e h hs => hs.step h.1 h.2) tracked_start).faithful

end Session

end OptimisticExtensionLoader

end Platform

namespace Sample

open OptimisticExtensionLoader Session

/-- The identifier of a sample block. -/
def blockId (id : Byte) : ByteStr := List.replicate 64 id

/-- Two extensions, of which the second is prefetched, and then a request for something else. -/
def steadyEvents : List Event :=
  [.request [blockId 1], .answer 0 [chained 1 1 2, chained 1 2 3],
    .answer 0 [chained 1 3 4, chained 1 4 5], .request [blockId 3, blockId 2],
    .request [blockId 9, blockId 1], .answer 0 [chained 1 5 6], .answer 0 [chained 1 9 7]]

/-- The loader is faithful all along. -/
theorem steadyEvents_faithful : Transducer.Along step Orderly start steadyEvents ∧
    ∀ run, run <+: steadyEvents → (Transducer.after step start run).Faithful := by
  have horderly : Transducer.Along step Orderly start steadyEvents := by decide +kernel
  exact ⟨horderly, faithful_of_orderly steadyEvents (by decide +kernel) horderly⟩

/-- The prefetched extension has one block, so that no other one is prefetched when it is passed
upstream; the next request is for what follows that block. -/
def leftOverEvents : List Event :=
  [.request [blockId 1], .answer 0 [chained 1 1 2, chained 1 2 3], .answer 0 [chained 1 3 4],
    .request [blockId 3, blockId 2], .request [blockId 4, blockId 3, blockId 2],
    .answer 0 [chained 1 4 5]]

/-- The answer to that request is discarded, although no prefetch was superseded. -/
theorem leftOverEvents_discard :
    Transducer.Along step Admissible start leftOverEvents ∧
      (Transducer.after step start leftOverEvents).discarded = [(2, .upstream)] ∧
      ¬ (Transducer.after step start leftOverEvents).Faithful := by
  refine ⟨by decide +kernel, by decide +kernel, fun h => ?_⟩
  have hdiscarded : (2, Request.upstream)
      ∈ (Transducer.after step start leftOverEvents).discarded := by decide +kernel
  cases h.discards _ hdiscarded

end Sample

end Vsys
