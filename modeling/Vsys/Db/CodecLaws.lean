import Vsys.Db.StorageCodecs

/-!
# What the codecs keep

A codec is described by the values it takes everything for, and by those it reads back.  Every codec
of the repository, and every way to put codecs together, has such a description.
-/

namespace Vsys

open Lib Codec

/-- A result or a failure, and not an endless loop; a result takes a byte at least. -/
def Decided {A : Type} (r : Except DecodeFault (DecodeResult A)) : Prop :=
  (∃ res, r = .ok res ∧ 0 < res.length) ∨ ∃ reason, r = .error (.codecFailure reason)

/-- What a codec does for the values in `dom`: the `greedy` ones are read by taking everything that
is there, and the `placed` ones are read back where nothing is lost by that. -/
structure Codec.Lawful {A : Type} (codec : Codec A) (dom greedy placed : A → Prop) : Prop where
  encodes : ∀ v, dom v → ∃ e, codec.encode v = .ok e ∧ 0 < e.length
  decided : ∀ bytes, Decided (codec.decode bytes)
  placed_of : ∀ v, ¬ greedy v → placed v
  reads_all : ∀ v e r res, dom v → codec.encode v = .ok e → (e ++ r).length < 2 ^ 31 → greedy v →
    codec.decode (e ++ r) = .ok res → (e ++ r).length ≤ res.length
  reads_back : ∀ v e r, dom v → codec.encode v = .ok e → (e ++ r).length < 2 ^ 31 → placed v →
    (greedy v → r = []) → codec.decode (e ++ r) = .ok ⟨e.length, v⟩
  placed_of_eq : ∀ v e, dom v → codec.encode v = .ok e → e.length < 2 ^ 31 →
    codec.decode e = .ok ⟨e.length, v⟩ → placed v

section Decided

variable {A B : Type}

theorem Decided.pos {x : Except DecodeFault (DecodeResult A)} {res : DecodeResult A}
    (h : Decided x) (hres : x = .ok res) : 0 < res.length := by
  obtain ⟨res', hres', hpos⟩ | ⟨reason, hfailure⟩ := h
  · rw [hres] at hres'
    obtain rfl := Except.ok.inj hres'
    exact hpos
  · rw [hres] at hfailure
    cases hfailure

theorem decided_ok {res : DecodeResult A} (h : 0 < res.length) : Decided (.ok res) :=
  .inl ⟨res, rfl, h⟩

theorem decided_failure {reason : String} :
    Decided (.error (.codecFailure reason) : Except DecodeFault (DecodeResult A)) :=
  .inr ⟨reason, rfl⟩

/-- A decision that goes on with another one. -/
theorem Decided.bind {x : Except DecodeFault (DecodeResult A)}
    {f : DecodeResult A → Except DecodeFault (DecodeResult B)} (hx : Decided x)
    (hf : ∀ res, x = .ok res → 0 < res.length → Decided (f res)) : Decided (x >>= f) := by
  obtain ⟨res, hres, hpos⟩ | ⟨reason, hfailure⟩ := hx
  · have hdecided := hf res hres hpos
    rw [hres]
    exact hdecided
  · rw [hfailure]
    exact decided_failure

end Decided

namespace Codec

section Combinators

variable {A B Col : Type} {codec : Codec A} {dom greedy placed : A → Prop} {v : A} {e r : ByteStr}

/-- A codec that reads its values back whatever follows them. -/
theorem lawful_of_forall (hencodes : ∀ v, dom v → ∃ e, codec.encode v = .ok e ∧ 0 < e.length)
    (hdecided : ∀ bytes, Decided (codec.decode bytes))
    (hback : ∀ v e r, dom v → codec.encode v = .ok e → (e ++ r).length < 2 ^ 31 →
      codec.decode (e ++ r) = .ok ⟨e.length, v⟩) :
    codec.Lawful dom (fun _ => False) fun _ => True where
  encodes := hencodes
  decided := hdecided
  placed_of := fun _ _ => trivial
  reads_all := fun _ _ _ _ _ _ _ hgreedy _ => hgreedy.elim
  reads_back := fun v e r hv he hlength _ _ => hback v e r hv he hlength
  placed_of_eq := fun _ _ _ _ _ _ => trivial

/-- A value comes back exactly if it is placed and, being greedy, is followed by nothing. -/
theorem Lawful.reads_back_iff (h : codec.Lawful dom greedy placed) (hv : dom v)
    (he : codec.encode v = .ok e) (hlength : (e ++ r).length < 2 ^ 31) :
    codec.decode (e ++ r) = .ok ⟨e.length, v⟩ ↔ placed v ∧ (greedy v → r = []) := by
  constructor
  · intro hback
    have hgreedy : greedy v → r = [] := by
      intro hgreedy
      have hall := h.reads_all v e r _ hv he hlength hgreedy hback
      rw [List.length_append] at hall
      exact List.eq_nil_of_length_eq_zero (by simpa using hall)
    refine ⟨?_, hgreedy⟩
    by_cases hv' : greedy v
    · obtain rfl := hgreedy hv'
      rw [List.append_nil] at hback hlength
      exact h.placed_of_eq v e hv he hlength hback
    · exact h.placed_of v hv'
  · rintro ⟨hplaced, hgreedy⟩
    exact h.reads_back v e r hv he hlength hplaced hgreedy

/-- A value in front is read exactly, unless it takes everything. -/
theorem Lawful.reads_back_of_not (h : codec.Lawful dom greedy placed) (hv : dom v)
    (he : codec.encode v = .ok e) (hlength : (e ++ r).length < 2 ^ 31) (hgreedy : ¬ greedy v) :
    codec.decode (e ++ r) = .ok ⟨e.length, v⟩ :=
  h.reads_back v e r hv he hlength (h.placed_of v hgreedy) fun hv' => absurd hv' hgreedy

/-- A pair is read by its parts; the first must not be greedy. -/
theorem tuple2_lawful {bCodec : Codec B} {dom' greedy' placed' : B → Prop}
    (ha : codec.Lawful dom greedy placed) (hb : bCodec.Lawful dom' greedy' placed') :
    (Tuple2Codec codec bCodec).Lawful (fun v => dom v.1 ∧ dom' v.2)
      (fun v => greedy v.1 ∨ greedy' v.2) (fun v => ¬ greedy v.1 ∧ placed' v.2) where
  encodes := by
    rintro ⟨a, b⟩ ⟨hdom, hdom'⟩
    obtain ⟨ea, hea, hposa⟩ := ha.encodes a hdom
    obtain ⟨eb, heb, -⟩ := hb.encodes b hdom'
    refine ⟨ea ++ eb, ?_, by rw [List.length_append]; omega⟩
    exact bind_eq_ok_iff.mpr ⟨ea, hea, bind_eq_ok_iff.mpr ⟨eb, heb, rfl⟩⟩
  decided := by
    intro bytes
    refine (ha.decided bytes).bind fun a _ hpos => (hb.decided _).bind fun b _ _ => ?_
    exact decided_ok (Nat.add_pos_left hpos _)
  placed_of := by
    rintro ⟨a, b⟩ hv
    obtain ⟨hgreedy, hgreedy'⟩ := not_or.mp hv
    exact ⟨hgreedy, hb.placed_of b hgreedy'⟩
  reads_all := by
    rintro ⟨a, b⟩ e r res ⟨hdom, hdom'⟩ he hlength hgreedy hres
    obtain ⟨ea, hea, he⟩ := bind_eq_ok_iff.mp he
    obtain ⟨eb, heb, he⟩ := bind_eq_ok_iff.mp he
    obtain rfl := pure_eq_ok_iff.mp he
    obtain ⟨ra, hra, hres⟩ := bind_eq_ok_iff.mp hres
    obtain ⟨rb, hrb, hres⟩ := bind_eq_ok_iff.mp hres
    obtain rfl := pure_eq_ok_iff.mp hres
    rw [List.append_assoc] at hlength hra hrb ⊢
    by_cases hfirst : greedy a
    · have hall := ha.reads_all a ea (eb ++ r) ra hdom hea hlength hfirst hra
      exact hall.trans (Nat.le_add_right _ _)
    · rw [ha.reads_back_of_not hdom hea hlength hfirst] at hra
      obtain rfl := Except.ok.inj hra
      rw [List.length_append] at hlength ⊢
      rw [List.drop_left] at hrb
      have hall := hb.reads_all b eb r rb hdom' heb (by omega)
        (hgreedy.resolve_left hfirst) hrb
      exact Nat.add_le_add_left hall _
  reads_back := by
    rintro ⟨a, b⟩ e r ⟨hdom, hdom'⟩ he hlength ⟨hfirst, hplaced⟩ hgreedy
    obtain ⟨ea, hea, he⟩ := bind_eq_ok_iff.mp he
    obtain ⟨eb, heb, he⟩ := bind_eq_ok_iff.mp he
    obtain rfl := pure_eq_ok_iff.mp he
    rw [List.append_assoc] at hlength ⊢
    have hra := ha.reads_back_of_not hdom hea hlength hfirst
    rw [List.length_append] at hlength
    have hrb := hb.reads_back b eb r hdom' heb (by omega) hplaced fun hb' => hgreedy (.inr hb')
    rw [List.length_append]
    refine bind_eq_ok_iff.mpr ⟨_, hra, bind_eq_ok_iff.mpr ⟨⟨eb.length, b⟩, ?_, rfl⟩⟩
    rw [List.drop_left]
    exact hrb
  placed_of_eq := by
    rintro ⟨a, b⟩ e ⟨hdom, hdom'⟩ he hlength hback
    obtain ⟨ea, hea, he⟩ := bind_eq_ok_iff.mp he
    obtain ⟨eb, heb, he⟩ := bind_eq_ok_iff.mp he
    obtain rfl := pure_eq_ok_iff.mp he
    obtain ⟨ra, hra, hback⟩ := bind_eq_ok_iff.mp hback
    obtain ⟨rb, hrb, hback⟩ := bind_eq_ok_iff.mp hback
    obtain ⟨hsum, hvalue⟩ := DecodeResult.mk.inj (pure_eq_ok_iff.mp hback)
    have hfirst : ¬ greedy a := by
      intro hgreedy
      -- the first part took everything, and the second takes a byte more
      have hall := ha.reads_all a ea eb ra hdom hea hlength hgreedy hra
      have hpos := (hb.decided _).pos hrb
      omega
    refine ⟨hfirst, ?_⟩
    rw [ha.reads_back_of_not hdom hea hlength hfirst] at hra
    obtain rfl := Except.ok.inj hra
    rw [List.drop_left] at hrb
    rw [List.length_append] at hsum hlength
    obtain ⟨-, hvalue⟩ := Prod.mk.inj hvalue
    refine hb.placed_of_eq b eb hdom' heb (by omega) ?_
    rw [hrb]
    exact congrArg Except.ok (DecodeResult.mk.injEq .. |>.mpr ⟨by dsimp only at hsum; omega, hvalue⟩)

/-- An option is read by its flag and its value. -/
theorem option_lawful (h : codec.Lawful dom greedy placed) :
    (OptionCodec codec).Lawful (fun v => ∀ x, v = some x → dom x)
      (fun v => ∃ x, v = some x ∧ greedy x) (fun v => ∀ x, v = some x → placed x) where
  encodes := by
    intro v hdom
    cases v with
    | none => exact ⟨[0], rfl, Nat.one_pos⟩
    | some x =>
        obtain ⟨e, he, -⟩ := h.encodes x (hdom x rfl)
        exact ⟨1 :: e, bind_eq_ok_iff.mpr ⟨e, he, rfl⟩, Nat.succ_pos _⟩
  decided := by
    intro bytes
    show Decided (if decodeBoolean bytes then _ else _)
    split
    · exact (h.decided _).bind fun x _ _ => decided_ok (Nat.add_pos_left Nat.one_pos _)
    · exact decided_ok Nat.one_pos
  placed_of := fun v hgreedy x hx => h.placed_of x fun hx' => hgreedy ⟨x, hx, hx'⟩
  reads_all := by
    rintro v e r res hdom he hlength ⟨x, rfl, hgreedy⟩ hres
    obtain ⟨ex, hex, he⟩ := bind_eq_ok_iff.mp he
    obtain rfl := pure_eq_ok_iff.mp he
    obtain ⟨rx, hrx, hres⟩ := bind_eq_ok_iff.mp hres
    obtain rfl := pure_eq_ok_iff.mp hres
    have hall := h.reads_all x ex r rx (hdom x rfl) hex (Nat.lt_of_succ_lt hlength) hgreedy hrx
    show (ex ++ r).length + 1 ≤ 1 + rx.length
    omega
  reads_back := by
    intro v e r hdom he hlength hplaced hgreedy
    cases v with
    | none =>
        obtain rfl := pure_eq_ok_iff.mp he
        rfl
    | some x =>
        obtain ⟨ex, hex, he⟩ := bind_eq_ok_iff.mp he
        obtain rfl := pure_eq_ok_iff.mp he
        have hback := h.reads_back x ex r (hdom x rfl) hex (Nat.lt_of_succ_lt hlength)
          (hplaced x rfl) fun hx => hgreedy ⟨x, rfl, hx⟩
        refine bind_eq_ok_iff.mpr ⟨⟨ex.length, x⟩, hback, ?_⟩
        rw [List.length_append]
        rfl
  placed_of_eq := by
    rintro v e hdom he hlength hback x rfl
    obtain ⟨ex, hex, he⟩ := bind_eq_ok_iff.mp he
    obtain rfl := pure_eq_ok_iff.mp he
    obtain ⟨rx, hrx, hback⟩ := bind_eq_ok_iff.mp hback
    obtain ⟨hsum, hvalue⟩ := DecodeResult.mk.inj (pure_eq_ok_iff.mp hback)
    have hrx : codec.decode ex = .ok rx := hrx
    refine h.placed_of_eq x ex (hdom x rfl) hex (Nat.lt_of_succ_lt hlength) ?_
    obtain ⟨length, value⟩ := rx
    rw [List.length_append] at hsum
    obtain rfl : length = ex.length := Nat.add_left_cancel hsum
    obtain rfl := Option.some.inj hvalue
    exact hrx

/-- Only the last element may take everything. -/
def LastGreedy (greedy placed : A → Prop) : List A → Prop
  | [] => True
  | [x] => placed x
  | x :: l => ¬ greedy x ∧ LastGreedy greedy placed l

theorem lastGreedy_cons (hplaced : ∀ v, ¬ greedy v → placed v) {x : A} {l : List A}
    (hx : ¬ greedy x) (hl : LastGreedy greedy placed l) : LastGreedy greedy placed (x :: l) := by
  cases l with
  | nil => exact hplaced x hx
  | cons y l => exact ⟨hx, hl⟩

/-- The loop moves on. -/
theorem le_of_decodeItems {bytes : ByteStr} {fuel i i' : Nat} {b b' : List A} {flag : Bool}
    (h : decodeItems codec bytes fuel i b = .ok (i', b', flag)) :
    i ≤ i' ∧ (flag = false → bytes.length ≤ i') := by
  induction fuel generalizing i b with
  | zero =>
      rw [decodeItems] at h
      split at h
      · obtain ⟨rfl, -⟩ := Prod.mk.inj (Except.ok.inj h)
        exact ⟨le_rfl, fun _ => by assumption⟩
      · cases h
  | succ fuel ih =>
      rw [decodeItems] at h
      split at h
      · obtain ⟨rfl, -⟩ := Prod.mk.inj (Except.ok.inj h)
        exact ⟨le_rfl, fun _ => by assumption⟩
      · split at h
        · obtain ⟨hle, hend⟩ := ih h
          exact ⟨(Nat.le_add_right _ _).trans hle, hend⟩
        · obtain ⟨rfl, hflag⟩ := Prod.mk.inj (Except.ok.inj h)
          obtain ⟨-, rfl⟩ := Prod.mk.inj hflag
          exact ⟨le_rfl, fun hfalse => by cases hfalse⟩
        · cases h

/-- The loop ends when its elements are decided. -/
theorem decodeItems_isOk (hdecided : ∀ bytes, Decided (codec.decode bytes)) {bytes : ByteStr}
    {fuel i : Nat} (hfuel : bytes.length ≤ i + fuel) (b : List A) :
    ∃ r, decodeItems codec bytes fuel i b = .ok r := by
  induction fuel generalizing i b with
  | zero =>
      rw [decodeItems, if_pos (by omega)]
      exact ⟨_, rfl⟩
  | succ fuel ih =>
      rw [decodeItems]
      split
      · exact ⟨_, rfl⟩
      · obtain ⟨res, hres, hpos⟩ | ⟨reason, hfailure⟩ := hdecided (bytes.drop i)
        · rw [hres]
          exact ih (by omega) _
        · rw [hfailure]
          exact ⟨_, rfl⟩

/-- One step of the loop, on an element that is read. -/
theorem decodeItems_step {bytes : ByteStr} {fuel i : Nat} {b : List A} {res : DecodeResult A}
    (hi : i < bytes.length) (hres : codec.decode (bytes.drop i) = .ok res) :
    decodeItems codec bytes (fuel + 1) i b
      = decodeItems codec bytes fuel (i + res.length) (b ++ [res.value]) := by
  rw [decodeItems, if_neg (not_le.mpr hi), hres]

/-- The loop at the end of the bytes. -/
theorem decodeItems_end {bytes : ByteStr} {fuel i : Nat} {b : List A} (hi : bytes.length ≤ i) :
    decodeItems codec bytes fuel i b = .ok (i, b, false) := by
  cases fuel with
  | zero => rw [decodeItems, if_pos hi]
  | succ fuel => rw [decodeItems, if_pos hi]

/-- The elements of which only the last is greedy are read to the end. -/
theorem Lawful.decodeItems_eq (h : codec.Lawful dom greedy placed) {bytes : ByteStr}
    (hlength : bytes.length < 2 ^ 31) {l : List A} {es : List ByteStr}
    (hes : List.Forall₂ (fun x e => codec.encode x = .ok e) l es) (hdom : ∀ x ∈ l, dom x)
    (hl : LastGreedy greedy placed l) {fuel i : Nat} {b : List A} (hi : i ≤ bytes.length)
    (hbytes : bytes.drop i = es.flatten) (hfuel : bytes.length ≤ i + fuel) :
    decodeItems codec bytes fuel i b = .ok (bytes.length, b ++ l, false) := by
  have hdrop := congrArg List.length hbytes
  rw [List.length_drop] at hdrop
  -- Every element takes a byte at least, so that the fuel lasts as long as the bytes do.
  induction hes generalizing fuel i b with
  | nil =>
      have hend : i = bytes.length := by
        rw [List.flatten_nil, List.length_nil] at hdrop
        omega
      rw [decodeItems_end hend.ge, List.append_nil, hend]
  | @cons x e l es hx hes ih =>
      obtain ⟨e', he', hpos⟩ := h.encodes x (hdom x List.mem_cons_self)
      obtain rfl := Except.ok.inj (hx.symm.trans he')
      rw [List.flatten_cons, List.length_append] at hdrop
      rw [List.flatten_cons] at hbytes
      cases fuel with
      | zero => omega
      | succ fuel =>
          have hread : codec.decode (bytes.drop i) = .ok ⟨e.length, x⟩ := by
            rw [hbytes]
            have hall : (e ++ es.flatten).length < 2 ^ 31 := by
              rw [List.length_append]
              omega
            cases hes with
            | nil => exact h.reads_back x e [] (hdom x List.mem_cons_self) hx hall hl fun _ => rfl
            | cons _ _ => exact h.reads_back_of_not (hdom x List.mem_cons_self) hx hall hl.1
          rw [decodeItems_step (by omega) hread]
          have hrest : bytes.drop (i + e.length) = es.flatten := by
            rw [← List.drop_drop, hbytes, List.drop_left]
          have hlast : LastGreedy greedy placed l := by
            cases l with
            | nil => trivial
            | cons y l => exact hl.2
          rw [ih (fun y hy => hdom y (List.mem_cons_of_mem x hy)) hlast (by omega) hrest (by omega)
            (by omega), List.append_assoc, List.singleton_append]

/-- The loop reads no more elements than were written, and only if the last one alone is greedy it
reads all of them to the end. -/
theorem Lawful.lastGreedy_of_decodeItems (h : codec.Lawful dom greedy placed) {bytes : ByteStr}
    (hlength : bytes.length < 2 ^ 31) {l : List A} {es : List ByteStr}
    (hes : List.Forall₂ (fun x e => codec.encode x = .ok e) l es) (hdom : ∀ x ∈ l, dom x)
    {fuel i i' : Nat} {b b' : List A} (hi : i ≤ bytes.length) (hbytes : bytes.drop i = es.flatten)
    (hread : decodeItems codec bytes fuel i b = .ok (i', b', false)) :
    b'.length ≤ b.length + l.length ∧
      (b' = b ++ l → i' = bytes.length → LastGreedy greedy placed l) := by
  have hdrop := congrArg List.length hbytes
  rw [List.length_drop] at hdrop
  -- The induction follows the elements as they were written. A greedy element takes all that is
  -- left, so the loop ends with it, and the list is read whole only if it was the last.
  induction hes generalizing fuel i b with
  | nil =>
      have hend : bytes.length ≤ i := by
        rw [List.flatten_nil, List.length_nil] at hdrop
        omega
      rw [decodeItems_end hend] at hread
      obtain ⟨-, hb⟩ := Prod.mk.inj (Except.ok.inj hread)
      obtain ⟨rfl, -⟩ := Prod.mk.inj hb
      exact ⟨le_rfl, fun _ _ => trivial⟩
  | @cons x e l es hx hes ih =>
      have hdomx := hdom x List.mem_cons_self
      obtain ⟨e', he', hpos⟩ := h.encodes x hdomx
      obtain rfl := Except.ok.inj (hx.symm.trans he')
      rw [List.flatten_cons, List.length_append] at hdrop
      rw [List.flatten_cons] at hbytes
      have hall : (e ++ es.flatten).length < 2 ^ 31 := by
        rw [List.length_append]
        omega
      cases fuel with
      | zero =>
          rw [decodeItems, if_neg (by omega)] at hread
          cases hread
      | succ fuel =>
          by_cases hgreedy : greedy x
          · obtain ⟨res, hres, -⟩ | ⟨reason, hfailure⟩ := h.decided (bytes.drop i)
            · rw [decodeItems_step (by omega) hres] at hread
              rw [hbytes] at hres
              have htaken := h.reads_all x e es.flatten res hdomx hx hall hgreedy hres
              rw [List.length_append] at htaken
              rw [decodeItems_end (by omega)] at hread
              obtain ⟨rfl, hb⟩ := Prod.mk.inj (Except.ok.inj hread)
              obtain ⟨rfl, -⟩ := Prod.mk.inj hb
              refine ⟨by simp, fun heq hend => ?_⟩
              obtain ⟨hvalue, rfl⟩ := List.cons.inj (List.append_cancel_left heq)
              cases hes with
              | nil =>
                  rw [List.flatten_nil, List.append_nil] at hres hall
                  rw [List.flatten_nil, List.length_nil] at hdrop
                  refine h.placed_of_eq x e hdomx hx hall ?_
                  rw [hres]
                  obtain ⟨length, value⟩ := res
                  dsimp only at hvalue hend
                  rw [hvalue, show length = e.length by omega]
            · rw [decodeItems, if_neg (by omega), hfailure] at hread
              cases hread
          · have hres : codec.decode (bytes.drop i) = .ok ⟨e.length, x⟩ := by
              rw [hbytes]
              exact h.reads_back_of_not hdomx hx hall hgreedy
            rw [decodeItems_step (by omega) hres] at hread
            have hrest : bytes.drop (i + e.length) = es.flatten := by
              rw [← List.drop_drop, hbytes, List.drop_left]
            obtain ⟨hcount, hlast⟩ := ih (fun y hy => hdom y (List.mem_cons_of_mem x hy))
              (by omega) hrest hread (by omega)
            refine ⟨?_, fun heq hend => ?_⟩
            · rw [List.length_append, List.length_singleton] at hcount
              rw [List.length_cons]
              omega
            · refine lastGreedy_cons h.placed_of hgreedy (hlast ?_ hend)
              rw [heq, List.append_assoc, List.singleton_append]

/-- The elements of a collection can be written, and take a byte each at least. -/
theorem Lawful.exists_forall₂ (h : codec.Lawful dom greedy placed) {l : List A}
    (hdom : ∀ x ∈ l, dom x) : ∃ es, List.Forall₂ (fun x e => codec.encode x = .ok e) l es := by
  induction l with
  | nil => exact ⟨[], .nil⟩
  | cons x l ih =>
      obtain ⟨e, he, -⟩ := h.encodes x (hdom x List.mem_cons_self)
      obtain ⟨es, hes⟩ := ih fun y hy => hdom y (List.mem_cons_of_mem x hy)
      exact ⟨e :: es, .cons he hes⟩

theorem Lawful.length_le_flatten (h : codec.Lawful dom greedy placed) {l : List A}
    {es : List ByteStr} (hes : List.Forall₂ (fun x e => codec.encode x = .ok e) l es)
    (hdom : ∀ x ∈ l, dom x) : l.length ≤ es.flatten.length := by
  induction hes with
  | nil => exact le_rfl
  | @cons x e l es hx hes ih =>
      obtain ⟨e', he', hpos⟩ := h.encodes x (hdom x List.mem_cons_self)
      obtain rfl := Except.ok.inj (hx.symm.trans he')
      have hrest := ih fun y hy => hdom y (List.mem_cons_of_mem x hy)
      rw [List.length_cons, List.flatten_cons, List.length_append]
      omega

theorem decodeInt_toByteArray (x : Int32) (bytes : ByteStr) :
    decodeInt ((Ints.toByteArray x ++ bytes).take 4) = .ok x := by
  rw [List.take_left' (Ints.length_toByteArray x), decodeInt, Ints.fromByteArray_toByteArray]
  rfl

/-- An integer, or a failure. -/
theorem decodeInt_cases (bytes : ByteStr) :
    (∃ x, decodeInt bytes = .ok x) ∨ ∃ reason, decodeInt bytes = .error (.codecFailure reason) := by
  rw [decodeInt]
  cases Ints.fromByteArray bytes with
  | ok x => exact .inl ⟨x, rfl⟩
  | error e => exact .inr ⟨_, rfl⟩

/-- A check goes on or fails. -/
theorem Decided.ensure {p : Prop} [Decidable p] {reason : String}
    {x : Except DecodeFault (DecodeResult A)} (hx : p → Decided x) :
    Decided (Lib.ensure p (DecodeFault.codecFailure reason) >>= fun _ => x) := by
  by_cases hp : p
  · rw [ensure_of hp]
    exact hx hp
  · rw [ensure_of_not hp]
    exact decided_failure

/-- A collection takes everything, and its elements must not but for the last. -/
theorem col_lawful (cbf : CanBuildFrom A Col) (h : codec.Lawful dom greedy placed) :
    (ColCodec cbf codec).Lawful (fun c => ∀ x ∈ cbf.toSeq c, dom x) (fun _ => True)
      (fun c => LastGreedy greedy placed (cbf.toSeq c)) where
  encodes := by
    intro c hdom
    obtain ⟨es, hes⟩ := h.exists_forall₂ hdom
    refine ⟨_, bind_eq_ok_iff.mpr ⟨es, mapM_eq_ok_iff.mpr hes, rfl⟩, ?_⟩
    rw [List.length_append, Ints.length_toByteArray]
    omega
  decided := by
    intro bytes
    show Decided (decodeInt (bytes.take 4) >>= _)
    obtain ⟨n, hn⟩ | ⟨reason, hfailure⟩ := decodeInt_cases (bytes.take 4)
    · obtain ⟨⟨i, b, flag⟩, hloop⟩ :=
        decodeItems_isOk h.decided (Nat.le_add_left bytes.length 4) []
      have hle : 4 ≤ i := (le_of_decodeItems hloop).1
      rw [hn, ok_bind, hloop]
      exact Decided.ensure fun _ => decided_ok (Nat.lt_of_lt_of_le (by decide) hle)
    · rw [hfailure]
      exact decided_failure
  placed_of := fun _ hgreedy => absurd trivial hgreedy
  reads_all := by
    intro c e r res _ _ _ _ hres
    obtain ⟨n, -, hres⟩ := bind_eq_ok_iff.mp hres
    obtain ⟨⟨i, b, flag⟩, hloop, hres⟩ := bind_eq_ok_iff.mp hres
    obtain ⟨_, hcheck, hres⟩ := bind_eq_ok_iff.mp hres
    obtain rfl := pure_eq_ok_iff.mp hres
    exact (le_of_decodeItems hloop).2 (ensure_eq_ok_iff.mp hcheck).1
  reads_back := by
    intro c e r hdom he hlength hplaced hgreedy
    obtain rfl := hgreedy trivial
    obtain ⟨es, hes, he⟩ := bind_eq_ok_iff.mp he
    obtain rfl := pure_eq_ok_iff.mp he
    have hes := mapM_eq_ok_iff.mp hes
    rw [List.append_nil] at hlength ⊢
    have hcount := h.length_le_flatten hes hdom
    have htotal := hlength
    rw [List.length_append, Ints.length_toByteArray] at htotal
    have hexpected : (Int32.ofNat (cbf.toSeq c).length).toInt = (cbf.toSeq c).length :=
      Int32.toInt_ofNat_of_lt (by omega)
    have hloop := h.decodeItems_eq hlength hes hdom hplaced (b := [])
      (by rw [List.length_append, Ints.length_toByteArray]; omega)
      (List.drop_left' (Ints.length_toByteArray _)) (Nat.le_add_left _ 4)
    refine bind_eq_ok_iff.mpr ⟨_, decodeInt_toByteArray _ _, bind_eq_ok_iff.mpr ⟨_, hloop, ?_⟩⟩
    rw [List.nil_append]
    dsimp only
    rw [cbf.result_toSeq, ensure_of ⟨rfl, hexpected⟩]
    rfl
  placed_of_eq := by
    intro c e hdom he hlength hback
    obtain ⟨es, hes, he⟩ := bind_eq_ok_iff.mp he
    obtain rfl := pure_eq_ok_iff.mp he
    have hes := mapM_eq_ok_iff.mp hes
    obtain ⟨n, hn, hback⟩ := bind_eq_ok_iff.mp hback
    obtain rfl := Except.ok.inj ((decodeInt_toByteArray _ _).symm.trans hn)
    obtain ⟨⟨i, b, flag⟩, hloop, hback⟩ := bind_eq_ok_iff.mp hback
    obtain ⟨_, hcheck, hback⟩ := bind_eq_ok_iff.mp hback
    obtain ⟨hend, hvalue⟩ := DecodeResult.mk.inj (pure_eq_ok_iff.mp hback)
    obtain rfl : flag = false := (ensure_eq_ok_iff.mp hcheck).1
    obtain ⟨hcount, hlast⟩ := h.lastGreedy_of_decodeItems hlength hes hdom
      (by rw [List.length_append, Ints.length_toByteArray]; omega)
      (List.drop_left' (Ints.length_toByteArray _)) hloop
    -- the collection has as many elements as were written, so none was read twice
    have hle := cbf.length_result b
    rw [hvalue] at hle
    have hsame : b = cbf.toSeq c := by
      have heq := cbf.toSeq_result b
      rw [hvalue] at heq
      rw [List.length_nil] at hcount
      exact (heq (by omega)).symm
    exact hlast hsame hend

end Combinators

section Primitives

variable {malformed : ByteStr → String}

theorem slice_written (n : Int32) (rest : ByteStr) (stop : Int) :
    slice (Ints.toByteArray n ++ rest) 4 stop = rest.take (stop.toNat - 4) := by
  show (List.drop 4 _).take _ = _
  rw [List.drop_left' (Ints.length_toByteArray _)]
  rfl

/-- Bytes are read back from behind their length. -/
theorem decodePrefixed_append {bytes r : ByteStr} {reason : String}
    (hlength : (encodePrefixed bytes ++ r).length < 2 ^ 31) :
    decodePrefixed reason (encodePrefixed bytes ++ r)
      = .ok ⟨(encodePrefixed bytes).length, bytes⟩ := by
  have htotal : (encodePrefixed bytes).length = 4 + bytes.length := by
    rw [encodePrefixed, List.length_append, Ints.length_toByteArray]
  rw [List.length_append, htotal] at hlength
  have hsize : (Int32.ofNat bytes.length).toInt = bytes.length :=
    Int32.toInt_ofNat_of_lt (by omega)
  have hstop : (4 + Int32.ofNat bytes.length).toInt = 4 + bytes.length := by
    rw [Int32.toInt_add, hsize, show (4 : Int32).toInt = 4 from rfl]
    exact Int.bmod_eq_of_le (by omega) (by omega)
  rw [encodePrefixed, List.append_assoc, decodePrefixed, decodeInt_toByteArray, ok_bind,
    slice_written, hstop]
  have htake : (bytes ++ r).take ((4 + (bytes.length : Int)).toNat - 4) = bytes :=
    List.take_left' (by omega)
  rw [htake]
  dsimp only
  rw [ensure_of hsize.symm, ok_bind, ← encodePrefixed, htotal]
  exact congrArg (fun n => Except.ok (DecodeResult.mk n bytes)) (by omega)

/-- A length that has its bytes is not negative, and its sum with 4 does not wrap. -/
theorem decodePrefixed_decided (reason : String) (bytes : ByteStr) :
    Decided (decodePrefixed reason bytes) := by
  rw [decodePrefixed]
  obtain ⟨s, hs⟩ | ⟨reason', hfailure⟩ := decodeInt_cases (bytes.take 4)
  · rw [hs, ok_bind]
    refine Decided.ensure fun hsize => decided_ok ?_
    show 0 < (4 + s).toInt.toNat
    by_contra hzero
    have hstop : (4 + s).toInt.toNat = 0 := by omega
    rw [slice, hstop, Nat.zero_sub, List.take_zero] at hsize
    obtain rfl : s = 0 := Int32.toInt_inj.mp hsize.symm
    exact absurd hstop (by decide)
  · rw [hfailure]
    exact decided_failure

theorem shortCodec_lawful : ShortCodec.Lawful (fun _ => True) (fun _ => False) fun _ => True := by
  refine lawful_of_forall ?_ ?_ ?_
  · exact fun v _ => ⟨_, rfl, by rw [Shorts.length_toByteArray]; omega⟩
  · intro bytes
    show Decided (decodeShort (bytes.take 2) >>= _)
    rw [decodeShort]
    cases Shorts.fromByteArray (bytes.take 2) with
    | ok x => exact decided_ok (Nat.zero_lt_two)
    | error e => exact decided_failure
  · intro v e r _ he _
    obtain rfl := Except.ok.inj he
    refine bind_eq_ok_iff.mpr ⟨v, ?_, ?_⟩
    · rw [List.take_left' (Shorts.length_toByteArray v), decodeShort,
        Shorts.fromByteArray_toByteArray]
      rfl
    · rw [Shorts.length_toByteArray]
      rfl

theorem stringCodec_lawful :
    (StringCodec malformed).Lawful (fun _ => True) (fun _ => False) fun _ => True := by
  refine lawful_of_forall ?_ ?_ ?_
  · refine fun v _ => ⟨_, rfl, ?_⟩
    rw [encodePrefixed, List.length_append, Ints.length_toByteArray]
    omega
  · exact fun bytes => (decodePrefixed_decided _ _).bind fun res _ hpos => decided_ok hpos
  · intro v e r _ he hlength
    obtain rfl := Except.ok.inj he
    refine bind_eq_ok_iff.mpr ⟨_, decodePrefixed_append hlength, ?_⟩
    show Except.ok (DecodeResult.mk _ (okOr (Deser.deserilizeString _) _)) = _
    rw [Deser.deserilizeString_serilizeString]
    rfl

theorem byteStrCodec_lawful : ByteStrCodec.Lawful (fun _ => True) (fun _ => False)
    fun _ => True := by
  refine lawful_of_forall ?_ (decodePrefixed_decided _) ?_
  · refine fun v _ => ⟨_, rfl, ?_⟩
    rw [encodePrefixed, List.length_append, Ints.length_toByteArray]
    omega
  · intro v e r _ he hlength
    obtain rfl := Except.ok.inj he
    exact decodePrefixed_append hlength

theorem ofSize_lawful {size : Nat} (hsize : 0 < size) (reason : String) :
    (ofSize size reason).Lawful (fun v => v.length = size) (fun _ => False) fun _ => True := by
  refine lawful_of_forall ?_ ?_ ?_
  · refine fun v hv => ⟨_, rfl, ?_⟩
    rw [List.length_take, hv, Nat.min_self]
    exact hsize
  · exact fun bytes => Decided.ensure fun _ => decided_ok hsize
  · intro v e r hv he _
    obtain rfl := Except.ok.inj he
    have hv : v.length = size := hv
    rw [List.take_of_length_le hv.le]
    show (ensure (((v ++ r).take size).length = size) _ >>= _) = _
    rw [List.take_left' hv, ensure_of hv, hv]
    rfl

theorem blockCheckpointCodec_lawful :
    BlockCheckpointCodec.Lawful (fun v => v.signature.length = Codec.SignatureLength)
      (fun _ => False) fun _ => True := by
  have hencode (v : BlockCheckpoint) (hv : v.signature.length = Codec.SignatureLength) :
      v.encode = .ok (Ints.toByteArray v.height ++ v.signature) := by
    rw [BlockCheckpoint.encode, if_pos hv.ge, List.take_of_length_le hv.le]
  refine lawful_of_forall ?_ ?_ ?_
  · refine fun v hv => ⟨_, hencode v hv, ?_⟩
    rw [List.length_append, Ints.length_toByteArray]
    omega
  · intro bytes
    show Decided (decodeInt (bytes.take 4) >>= _)
    obtain ⟨n, hn⟩ | ⟨reason, hfailure⟩ := decodeInt_cases (bytes.take 4)
    · rw [hn, ok_bind]
      exact Decided.ensure fun _ => decided_ok (Nat.succ_pos _)
    · rw [hfailure]
      exact decided_failure
  · intro v e r hv he _
    obtain rfl := Except.ok.inj ((hencode v hv).symm.trans he)
    have hlength : (Ints.toByteArray v.height ++ v.signature).length = 4 + Codec.SignatureLength := by
      rw [List.length_append, Ints.length_toByteArray, hv]
    rw [hlength, List.append_assoc]
    refine bind_eq_ok_iff.mpr ⟨_, decodeInt_toByteArray _ _, ?_⟩
    have hslice : slice (Ints.toByteArray v.height ++ (v.signature ++ r)) 4 (4 + Codec.SignatureLength)
        = v.signature := by
      rw [slice_written]
      exact List.take_left' hv
    rw [ensure_of, ok_bind, hslice]
    · rfl
    · rw [← List.append_assoc, List.length_append, hlength]
      omega

/-- The long behind the name of a portfolio item. -/
theorem portfolioItemCodec_lawful :
    (PortfolioItemCodec malformed).Lawful (fun _ => True) (fun _ => False) fun _ => True := by
  refine lawful_of_forall ?_ ?_ ?_
  · rintro ⟨s, n⟩ -
    refine ⟨_, rfl, ?_⟩
    rw [List.length_append, Longs.length_toByteArray]
    omega
  · intro bytes
    refine (stringCodec_lawful.decided bytes).bind fun r _ hpos => ?_
    rw [decodeLong]
    cases Longs.fromByteArray (slice bytes r.length (r.length + 8)) with
    | ok x => exact decided_ok (Nat.add_pos_left hpos _)
    | error e => exact decided_failure
  · rintro ⟨s, n⟩ e r - he hlength
    obtain ⟨es, hes, he⟩ := bind_eq_ok_iff.mp he
    obtain rfl := pure_eq_ok_iff.mp he
    rw [List.append_assoc] at hlength ⊢
    have hlawful : (StringCodec malformed).Lawful _ _ _ := stringCodec_lawful
    have hs := hlawful.reads_back_of_not trivial hes hlength id
    refine bind_eq_ok_iff.mpr ⟨_, hs, ?_⟩
    have hslice : slice (es ++ (Longs.toByteArray n ++ r)) es.length (es.length + 8)
        = Longs.toByteArray n := by
      show (List.drop es.length _).take _ = _
      rw [List.drop_left]
      refine List.take_left' ?_
      rw [Longs.length_toByteArray]
      omega
    dsimp only
    rw [hslice, decodeLong, Longs.fromByteArray_toByteArray, List.length_append,
      Longs.length_toByteArray]
    rfl

/-- A checkpoint takes everything: its items are a collection. -/
theorem checkpointCodec_lawful :
    CheckpointCodec.Lawful (fun v => v.signature.length = Codec.SignatureLength ∧
        ∀ item ∈ v.items, item.signature.length = Codec.SignatureLength)
      (fun _ => True) fun _ => True := by
  have hitems := col_lawful (.seq BlockCheckpoint) blockCheckpointCodec_lawful
  have hplaced (l : List BlockCheckpoint) :
      LastGreedy (fun _ => False) (fun _ => True) l := by
    induction l with
    | nil => trivial
    | cons x l ih => exact lastGreedy_cons (fun _ _ => trivial) id ih
  have hencode (v : Checkpoint) (hv : v.signature.length = Codec.SignatureLength) {r : ByteStr}
      (hr : (ColCodec (.seq BlockCheckpoint) BlockCheckpointCodec).encode v.items = .ok r) :
      CheckpointCodec.encode v = .ok (v.signature ++ r) := by
    refine bind_eq_ok_iff.mpr ⟨r, hr, ?_⟩
    rw [if_pos hv.ge, List.take_of_length_le hv.le]
    rfl
  refine ⟨?_, ?_, fun _ _ => trivial, ?_, ?_, fun _ _ _ _ _ _ => trivial⟩
  · rintro v ⟨hv, hdom⟩
    obtain ⟨r, hr, hpos⟩ := hitems.encodes v.items hdom
    refine ⟨_, hencode v hv hr, ?_⟩
    rw [List.length_append]
    omega
  · intro bytes
    refine Decided.ensure fun _ => (hitems.decided _).bind fun res _ hpos => decided_ok ?_
    exact Nat.add_pos_right _ hpos
  · rintro v e r res ⟨hv, hdom⟩ he hlength - hres
    obtain ⟨ritems, hr, -⟩ := hitems.encodes v.items hdom
    obtain rfl := Except.ok.inj ((hencode v hv hr).symm.trans he)
    obtain ⟨_, -, hres⟩ := bind_eq_ok_iff.mp hres
    obtain ⟨items, hread, hres⟩ := bind_eq_ok_iff.mp hres
    obtain rfl := pure_eq_ok_iff.mp hres
    rw [List.append_assoc] at hlength hread ⊢
    rw [List.drop_left' hv] at hread
    rw [List.length_append] at hlength ⊢
    have hall := hitems.reads_all v.items ritems r items hdom hr (by omega) trivial hread
    rw [hv]
    exact Nat.add_le_add_left hall _
  · rintro v e r ⟨hv, hdom⟩ he hlength - hgreedy
    -- The items take all the bytes that are left, so that nothing may follow them.
    obtain rfl := hgreedy trivial
    obtain ⟨ritems, hr, -⟩ := hitems.encodes v.items hdom
    obtain rfl := Except.ok.inj ((hencode v hv hr).symm.trans he)
    rw [List.append_nil] at hlength ⊢
    have htotal := hlength
    rw [List.length_append] at htotal
    have hread := hitems.reads_back v.items ritems [] hdom hr (by rw [List.append_nil]; omega)
      (hplaced v.items) fun _ => rfl
    rw [List.append_nil] at hread
    show (ensure (((v.signature ++ ritems).take Codec.SignatureLength).length = Codec.SignatureLength) _
      >>= _) = _
    rw [List.take_left' hv, ensure_of hv, ok_bind, List.drop_left' hv, hread, List.length_append, hv]
    rfl

end Primitives

end Codec

end Vsys
