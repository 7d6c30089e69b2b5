/-
The inter-core ring is a queue.

One task puts and one gets, with their accesses interleaved in any way.  In every state the
bytes that `get` has returned are the first of those that `put` has accepted, and the bytes
in between lie in the buffer, each at its place.  The index words are the counts of both,
each changed by one task only.  A task that reads the word of the other may see a count
that is behind, which is a smaller space for `put` and less data for `get`.
-/
import Rcard.Lcpu.CircularBuf
import Rcard.Lib.Parallel

namespace Rcard.CircularBuf

open List Function Prog Parallel Parallel.World

inductive Side where
  | producer
  | consumer
  deriving DecidableEq, Repr

/-- The bytes to put, or the length of the buffer to fill. -/
abbrev Side.Call : Side → Type
  | producer => List UInt8
  | consumer => Nat

abbrev Side.Result : Side → Type
  | producer => Nat
  | consumer => List UInt8

def calls : Parallel Ring Side Access Access.Answer Side.Call Side.Result where
  exec := exec
  body
    | .producer, data => put data
    | .consumer, outLen => get outLen

abbrev World := Parallel.World Ring Side Access Side.Call Side.Result

abbrev PutReturn := Return Ring Access (List UInt8) Nat

abbrev GetReturn := Return Ring Access Nat (List UInt8)

/-- The bytes that `put` reported as accepted. -/
def accepted (w : World) : List UInt8 := (w.done .producer).flatMap fun r => r.call.take r.result

/-- The bytes that `get` returned. -/
def returned (w : World) : List UInt8 := (w.done .consumer).flatMap fun r => r.result

/-- The bytes in the ring as its words have it. -/
def Ring.used (r : Ring) : Nat := lenOf r.bufferSize.toNat r.readIdxMirror r.writeIdxMirror

def Ring.space (r : Ring) : Nat := r.bufferSize.toNat - r.used

/-- These bytes, from the read index on. -/
def Ring.contents (r : Ring) : List UInt8 :=
  (range r.used).map fun i => r.data ((cbGetPtrIdx r.readIdxMirror + i) % r.bufferSize.toNat)

/-- A `put` that takes less than all was short of space when it read the read index. -/
def PutFair (r : PutReturn) : Prop :=
  r.result ≤ r.call.length ∧
    (r.result < r.call.length → ∃ ring, (.readIdxMirror, ring) ∈ r.trace ∧ ring.space = r.result)

/-- A `get` that returns less than was asked for found no more when it read the write
index. -/
def GetFair (r : GetReturn) : Prop :=
  r.result.length ≤ r.call ∧
    (r.result.length < r.call →
      ∃ ring, (.writeIdxMirror, ring) ∈ r.trace ∧ ring.used = r.result.length)

/-- The rings that a call has seen at its accesses of one kind. -/
def seen (x : Access) (trace : List (Access × Ring)) : List Ring :=
  trace.filterMap fun y => if y.1 = x then some y.2 else none

@[simp] theorem seen_append (x : Access) (trace trace' : List (Access × Ring)) :
    seen x (trace ++ trace') = seen x trace ++ seen x trace' :=
  filterMap_append

@[simp] theorem seen_nil (x : Access) : seen x [] = [] := rfl

@[simp] theorem seen_cons (x y : Access) (ring : Ring) (trace : List (Access × Ring)) :
    seen x ((y, ring) :: trace) = if y = x then ring :: seen x trace else seen x trace := by
  by_cases hyx : y = x <;> simp [seen, hyx]

/-- A `put` takes what there is space for when it reads the read index, which it does once. -/
def PutTakes (r : PutReturn) : Prop :=
  r.call = [] ∧ r.result = 0 ∨
    ∃ ring, seen .readIdxMirror r.trace = [ring] ∧ r.result = min ring.space r.call.length

/-- A `get` takes what there is when it reads the write index, which it does once. -/
def GetTakes (r : GetReturn) : Prop :=
  r.call = 0 ∧ r.result = [] ∨
    ∃ ring, seen .writeIdxMirror r.trace = [ring] ∧ r.result.length = min ring.used r.call

theorem mem_of_seen {x : Access} {trace : List (Access × Ring)} {ring : Ring}
    (h : seen x trace = [ring]) : (x, ring) ∈ trace := by
  have hmem : ring ∈ seen x trace := h ▸ mem_singleton_self ring
  grind [seen]

theorem PutTakes.fair {r : PutReturn} (h : PutTakes r) : PutFair r := by
  rcases h with ⟨hcall, hresult⟩ | ⟨ring, hseen, hresult⟩
  · simp [PutFair, hcall, hresult]
  · exact ⟨by omega, fun hlt => ⟨ring, mem_of_seen hseen, by omega⟩⟩

theorem GetTakes.fair {r : GetReturn} (h : GetTakes r) : GetFair r := by
  rcases h with ⟨hcall, hresult⟩ | ⟨ring, hseen, hresult⟩
  · simp [GetFair, hcall, hresult]
  · exact ⟨by omega, fun hlt => ⟨ring, mem_of_seen hseen, by omega⟩⟩

structure Inv (n : Nat) (w : World) : Prop where
  size : w.shared.bufferSize = n
  ptr : w.shared.rdBufferPtr ≠ 0
  read : w.shared.readIdxMirror = wordOf n (returned w).length
  write : w.shared.writeIdxMirror = wordOf n (accepted w).length
  fits : (accepted w).length ≤ (returned w).length + n
  front : returned w <+: accepted w
  data : ∀ i b, (returned w).length ≤ i → (accepted w)[i]? = some b → w.shared.data (i % n) = b
  puts : ∀ r ∈ w.done .producer, PutTakes r
  gets : ∀ r ∈ w.done .consumer, GetTakes r

/-- What a side relies on the other to do. -/
def Rely : Side → World → World → Prop
  | .producer, w, w' =>
    w'.done .producer = w.done .producer ∧ w'.shared.data = w.shared.data ∧
      (returned w).length ≤ (returned w').length
  | .consumer, w, w' => w'.done .consumer = w.done .consumer ∧ accepted w <+: accepted w'

theorem Rely.refl (t : Side) (w : World) : Rely t w w := by
  cases t with
  | producer => exact ⟨rfl, rfl, Nat.le_refl _⟩
  | consumer => exact ⟨rfl, prefix_rfl⟩

theorem Rely.trans (t : Side) (a b c : World) (hab : Rely t a b) (hbc : Rely t b c) :
    Rely t a c := by
  cases t with
  | producer =>
    exact ⟨hbc.1.trans hab.1, hbc.2.1.trans hab.2.1, Nat.le_trans hab.2.2 hbc.2.2⟩
  | consumer => exact ⟨hbc.1.trans hab.1, hab.2.trans hbc.2⟩

section Log

variable (w : World)

theorem accepted_log_put (r : PutReturn) :
    accepted (w.log .producer r) = accepted w ++ r.call.take r.result := by
  rw [accepted, log_done_self, flatMap_append]
  exact congrArg _ (append_nil _)

theorem accepted_log_get (r : GetReturn) : accepted (w.log .consumer r) = accepted w := by
  rw [accepted, log_done_of_ne w (by decide), ← accepted]

theorem returned_log_get (r : GetReturn) :
    returned (w.log .consumer r) = returned w ++ r.result := by
  rw [returned, log_done_self, flatMap_append]
  exact congrArg _ (append_nil _)

end Log

variable {n : Nat}

theorem mod_ne {i j : Nat} (hij : i < j) (hlt : j < i + n) : i % n ≠ j % n := by
  intro heq
  have hzero := Nat.sub_mod_eq_zero_of_mod_eq heq.symm
  rw [Nat.mod_eq_of_lt (by omega)] at hzero
  omega

theorem place_before_end {a j : Nat} (hj : j < n - a % n) : a % n + j = (a + j) % n := by
  have hsame : a + j = a % n + j + a / n * n := by
    have := Nat.div_add_mod' a n
    omega
  rw [hsame, Nat.add_mul_mod_self_right]
  exact (Nat.mod_eq_of_lt (by omega)).symm

theorem place_after_end {a j : Nat} (hn : 0 < n) (hj : j < n) :
    0 + j = (a + (n - a % n) + j) % n := by
  have hround : a + (n - a % n) + j = j + (a / n + 1) * n := by
    have := Nat.div_add_mod' a n
    have := Nat.mod_lt a hn
    rw [Nat.add_mul]
    omega
  rw [hround, Nat.add_mul_mod_self_right, Nat.mod_eq_of_lt hj, Nat.zero_add]

abbrev Settled (n : Nat) (t : Side) : World → World → Prop :=
  Parallel.Settled (Inv n) Rely t

abbrev Safe (n : Nat) (t : Side) (c : t.Call) (p : RingProg t.Result) :
    List (Access × Ring) → World → World → Prop :=
  Parallel.Safe calls (Inv n) Rely t c p

theorem settled_self {w : World} (h : Inv n w) (t : Side) : Settled n t w w :=
  ⟨h, fun u _ => Rely.refl u w⟩

/-- What a side knows of the world and keeps over the steps of the other. -/
structure Stable (n : Nat) (t : Side) (P : World → Prop) : Prop where
  inv {w : World} : P w → Inv n w
  others {w w' : World} : P w → Rely t w w' → Inv n w' → P w'

section Stable

variable {t : Side} {c : t.Call} {P : World → Prop} {w : World} {trace : List (Access × Ring)}
variable (hP : Stable n t P) (h : P w)
include hP h

theorem Stable.read_access {x : Access} {k : x.Answer → RingProg t.Result}
    (hx : ∀ ring, (exec ring x).1 = ring)
    (hk : ∀ w, P w → Safe n t c (k (exec w.shared x).2) (trace ++ [(x, w.shared)]) w w) :
    Safe n t c (.act x k) trace w w := by
  refine ⟨settled_self (hP.inv h) t, fun w' hrely hinv => ?_⟩
  have hnext := hk w' (hP.others h hrely hinv)
  change Safe n t c _ _ w' { w' with shared := (exec w'.shared x).1 }
  rw [hx]
  exact hnext

theorem Stable.bufferSize {k : Nat → RingProg t.Result}
    (hk : ∀ trace' w, (∀ x ≠ .bufferSize, seen x trace' = seen x trace) → P w →
      Safe n t c (k n) trace' w w) :
    Safe n t c (bufferSize >>= k) trace w w := by
  refine hP.read_access h (fun _ => rfl) fun w' h' => ?_
  have hnext := hk (trace ++ [(.bufferSize, w'.shared)]) w' (by grind [seen]) h'
  have hsize : (exec w'.shared .bufferSize).2 = (n : Int) := (hP.inv h').size
  rw [hsize]
  exact hnext

end Stable

/-! ## The producer -/

/-- In a `put` that started after `a` bytes were accepted and saw the read index at `r`.
The bytes `sent` are stored behind those accepted. -/
structure Putting (n a r : Nat) (sent : List UInt8) (w : World) : Prop where
  inv : Inv n w
  count : (accepted w).length = a
  read : r ≤ (returned w).length
  sent : ∀ j b, sent[j]? = some b → w.shared.data ((a + j) % n) = b

section Put

variable {n a r : Nat} {sent : List UInt8} {w : World}

theorem Putting.stable : Stable n .producer (Putting n a r sent) := by
  refine ⟨Putting.inv, fun {w w'} h ⟨hdone, hdata, hread⟩ hinv => ?_⟩
  have haccepted : accepted w' = accepted w := by rw [accepted, accepted, hdone]
  refine ⟨hinv, ?_, Nat.le_trans h.read hread, ?_⟩
  · rw [haccepted, h.count]
  · rw [hdata]
    exact h.sent

section

variable (h : Putting n a r sent w)
include h

theorem Putting.le : r ≤ a := by
  have hfront := h.inv.front.length_le
  rw [h.count] at hfront
  exact Nat.le_trans h.read hfront

/-- A byte goes into a place that no byte in the ring has. -/
theorem Putting.store (hroom : a + sent.length < r + n) (b : UInt8) :
    Putting n a r (sent ++ [b])
      { w with shared := (exec w.shared (.store ((a + sent.length) % n) b)).1 } := by
  have hread := h.read
  have hle := h.le
  refine ⟨⟨h.inv.size, h.inv.ptr, h.inv.read, h.inv.write, h.inv.fits, h.inv.front, ?_,
    h.inv.puts, h.inv.gets⟩, h.count, h.read, ?_⟩
  · intro i c hi hc
    replace hi : (returned w).length ≤ i := hi
    have hlt : i < (accepted w).length := (List.getElem?_eq_some_iff.mp hc).1
    rw [h.count] at hlt
    have hne : i % n ≠ (a + sent.length) % n := mod_ne (by omega) (by omega)
    exact (update_of_ne hne _ _).trans (h.inv.data i c hi hc)
  · intro j c hc
    rcases Nat.lt_or_ge j sent.length with hj | hj
    · rw [getElem?_append_left hj] at hc
      have hne : (a + j) % n ≠ (a + sent.length) % n := mod_ne (by omega) (by omega)
      exact (update_of_ne hne _ _).trans (h.sent j c hc)
    · rw [getElem?_append_right hj, getElem?_singleton] at hc
      obtain rfl : j = sent.length := by
        split at hc
        · omega
        · cases hc
      rw [Nat.sub_self] at hc
      cases hc
      exact update_self _ _ _

theorem Putting.settled_store (hroom : a + sent.length < r + n) (b : UInt8) :
    Settled n .producer w
      { w with shared := (exec w.shared (.store ((a + sent.length) % n) b)).1 } := by
  refine ⟨(h.store hroom b).inv, fun u hu => ?_⟩
  cases u with
  | producer => exact absurd rfl hu
  | consumer => exact ⟨rfl, prefix_rfl⟩

/-- The return of a `put` that has stored `sent` and moves the write index past it. -/
theorem Putting.finish (hroom : a + sent.length ≤ (returned w).length + n) {data : List UInt8}
    (hsent : data.take sent.length = sent) {trace : List (Access × Ring)}
    (htakes : PutTakes ⟨data, trace, sent.length⟩) :
    Settled n .producer w
      (Parallel.World.log
        { w with shared := (exec w.shared (.setWriteIdxMirror (wordOf n (a + sent.length)))).1 }
        .producer ⟨data, trace, sent.length⟩) := by
  set w' : World :=
    { w with shared := (exec w.shared (.setWriteIdxMirror (wordOf n (a + sent.length)))).1 }
    with hw'
  have haccepted : accepted (w'.log .producer ⟨data, trace, sent.length⟩) = accepted w ++ sent := by
    rw [accepted_log_put, hsent]
    rfl
  refine ⟨⟨h.inv.size, h.inv.ptr, ?_, ?_, ?_, ?_, ?_, ?_, ?_⟩, fun u hu => ?_⟩
  · exact h.inv.read
  · rw [haccepted, length_append, h.count]
    rfl
  · rw [haccepted, length_append, h.count]
    exact hroom
  · rw [haccepted]
    exact h.inv.front.trans (prefix_append _ _)
  · intro i b hi hb
    rw [haccepted, getElem?_append, h.count] at hb
    split at hb
    · exact h.inv.data i b hi hb
    · have hplace := h.sent (i - a) b hb
      rwa [Nat.add_sub_cancel' (by omega)] at hplace
  · exact forall_mem_append.mpr ⟨h.inv.puts, forall_mem_singleton.mpr htakes⟩
  · exact h.inv.gets
  · cases u with
    | producer => exact absurd rfl hu
    | consumer =>
      refine ⟨log_done_of_ne w' (by decide) _, ?_⟩
      rw [haccepted]
      exact prefix_append _ _

end

/-- The return of a `put` that takes nothing. -/
theorem Putting.refuse (h : Putting n a r [] w) {data : List UInt8}
    {trace : List (Access × Ring)} (htakes : PutTakes ⟨data, trace, 0⟩) :
    Settled n .producer w (w.log .producer ⟨data, trace, 0⟩) := by
  have hroom : a + [].length (α := UInt8) ≤ (returned w).length + n := by
    rw [← h.count]
    exact h.inv.fits
  have hsettled := h.finish hroom take_zero htakes
  have hword : wordOf n (a + [].length (α := UInt8)) = w.shared.writeIdxMirror := by
    rw [h.inv.write, h.count, length_nil, Nat.add_zero]
  rw [hword] at hsettled
  exact hsettled

variable {data : List UInt8} {trace : List (Access × Ring)} {before : World}

theorem Putting.storeBytes {k : Unit → RingProg Nat} {i : Nat} {bytes : List UInt8}
    (h : Putting n a r sent w) (hsettled : Settled n .producer before w)
    (hplace : ∀ j < bytes.length, i + j = (a + sent.length + j) % n)
    (hroom : a + sent.length + bytes.length ≤ r + n)
    (hk : ∀ trace' before w, seen .readIdxMirror trace' = seen .readIdxMirror trace →
      Settled n .producer before w →
      Putting n a r (sent ++ bytes) w → Safe n .producer data (k ()) trace' before w) :
    Safe n .producer data (storeBytes i bytes >>= k) trace before w := by
  induction bytes generalizing i sent trace before w with
  | nil =>
    rw [append_nil] at hk
    exact hk trace before w rfl hsettled h
  | cons b bytes ih =>
    rw [length_cons] at hplace hroom
    refine ⟨hsettled, fun w' hrely hinv => ?_⟩
    have hw' := Putting.stable.others h hrely hinv
    have hi : i = (a + sent.length) % n := hplace 0 (Nat.succ_pos _)
    rw [hi]
    refine ih (hw'.store (by omega) b) (hw'.settled_store (by omega) b) ?_ ?_ ?_
    · grind
    · rw [length_append, length_singleton]
      omega
    · intro trace' before' w'' htrace hsettled' hput
      rw [append_assoc, singleton_append] at hput
      exact hk trace' before' w'' (htrace.trans (by simp)) hsettled' hput

theorem Putting.start (h : Inv n w) : Putting n (accepted w).length (returned w).length [] w :=
  ⟨h, rfl, Nat.le_refl _, nofun⟩

theorem Putting.refresh (h : Putting n a r sent w) : Putting n a (returned w).length sent w :=
  ⟨h.inv, h.count, Nat.le_refl _, h.sent⟩

theorem Inv.used_eq (h : Inv n w) (hn : 0 < n) (hmax : n ≤ 2 ^ 16) :
    w.shared.used = (accepted w).length - (returned w).length := by
  rw [Ring.used, h.size, h.read, h.write, Int.toNat_natCast,
    lenOf_wordOf hn hmax h.front.length_le h.fits]

/-- What has gone in is what has come out and what is there. -/
theorem Inv.contents_eq (h : Inv n w) (hn : 0 < n) (hmax : n ≤ 2 ^ 16) :
    returned w ++ w.shared.contents = accepted w := by
  obtain ⟨rest, hrest⟩ := h.front
  have hused : w.shared.used = rest.length := by
    rw [h.used_eq hn hmax, ← hrest, length_append]
    omega
  rw [← hrest, append_cancel_left_eq, Ring.contents, hused]
  refine ext_getElem (by simp) fun i _ hi => ?_
  rw [getElem_map, getElem_range, h.read, idx_wordOf hn hmax, h.size, Int.toNat_natCast,
    Nat.mod_add_mod]
  refine h.data _ _ (Nat.le_add_right _ _) ?_
  rw [← hrest, getElem?_append_right (Nat.le_add_right _ _), Nat.add_sub_cancel_left,
    getElem?_eq_getElem hi]

/-- The space that `put` computes is that of the moment when it reads the read index.  The
write index, which it reads next, is its own. -/
theorem Putting.spaceLen {k : Nat → RingProg Nat} (hn : 0 < n) (hmax : n ≤ 2 ^ 16)
    (h : Putting n a r sent w)
    (hk : ∀ trace' r ring w, seen .readIdxMirror trace' = seen .readIdxMirror trace ++ [ring] →
      ring.space = n - (a - r) → Putting n a r sent w →
      Safe n .producer data (k (n - (a - r))) trace' w w) :
    Safe n .producer data (spaceLen >>= k) trace w w := by
  rw [CircularBuf.spaceLen, bind_assoc]
  refine Putting.stable.bufferSize h fun trace₁ w₁ htrace₁ h₁ => ?_
  rw [dataLen, bind_assoc, bind_assoc]
  refine Putting.stable.bufferSize h₁ fun trace₂ w₂ htrace₂ h₂ => ?_
  rw [if_neg (Nat.ne_of_gt hn)]
  refine Putting.stable.read_access h₂ (fun _ => rfl) fun w₃ h₃ => ?_
  refine Putting.stable.read_access h₃.refresh (fun _ => rfl) fun w₄ h₄ => ?_
  have hspace : w₃.shared.space = n - (a - (returned w₃).length) := by
    rw [Ring.space, h₃.inv.used_eq hn hmax, h₃.inv.size, h₃.count, Int.toNat_natCast]
  have hlen : lenOf n (exec w₃.shared .readIdxMirror).2 (exec w₄.shared .writeIdxMirror).2 =
      a - (returned w₃).length := by
    have hused := h₃.inv.used_eq hn hmax
    rw [Ring.used, h₃.inv.size, Int.toNat_natCast, h₃.inv.write, h₃.count, ← h₄.count,
      ← h₄.inv.write, h₄.count] at hused
    exact hused
  have hnext := hk (trace₂ ++ [(.readIdxMirror, w₃.shared)] ++ [(.writeIdxMirror, w₄.shared)])
    _ _ w₄ (by simp [htrace₁, htrace₂]) hspace h₄
  rw [← hlen] at hnext
  exact hnext

variable {len : Nat}

theorem PutTakes.mono {trace' : List (Access × Ring)} (h : PutTakes ⟨data, trace, len⟩)
    (htrace : seen .readIdxMirror trace' = seen .readIdxMirror trace) :
    PutTakes ⟨data, trace', len⟩ :=
  h.imp_right fun ⟨ring, hseen, hlen⟩ => ⟨ring, htrace.trans hseen, hlen⟩

/-- `put` ends by moving the write index past what it has stored. -/
theorem Putting.setWriteIdxMirror {v : Nat} (h : Putting n a r (data.take len) w)
    (hsettled : Settled n .producer before w) (hroom : a + len ≤ r + n)
    (hv : v = wordOf n (a + len)) (htakes : PutTakes ⟨data, trace, len⟩) :
    Safe n .producer data (do setWriteIdxMirror v; return len) trace before w := by
  subst hv
  refine ⟨hsettled, fun w' hrely hinv => ?_⟩
  have h' := Putting.stable.others h hrely hinv
  have hread := h'.read
  have hlen : (data.take len).length = len := length_take_of_le htakes.fair.1
  have htakes' : PutTakes ⟨data, trace ++ [(.setWriteIdxMirror (wordOf n (a + len)), w'.shared)],
      len⟩ := htakes.mono (by simp)
  have hsettled' := h'.finish (by omega) (by rw [hlen]) (hlen.symm ▸ htakes')
  rw [hlen] at hsettled'
  exact hsettled'

/-- The copy stays before the end of the buffer. -/
theorem Putting.copy (hn : 0 < n) (hmax : n ≤ 2 ^ 16) (h : Putting n a r [] w)
    (hroom : a + len ≤ r + n) (hshort : len < n - a % n) (htakes : PutTakes ⟨data, trace, len⟩) :
    Safe n .producer data (do
      CircularBuf.storeBytes (a % n) (data.take len)
      CircularBuf.setWriteIdxMirror (cbMakePtrIdxMirror (asU16 (a % n + len)) (mirrorOf n a))
      return len) trace w w := by
  have hlen : (data.take len).length = len := length_take_of_le htakes.fair.1
  refine h.storeBytes (settled_self h.inv _) ?_ ?_ ?_
  · intro j hj
    exact place_before_end (by omega)
  · rw [hlen]
    exact hroom
  · intro trace' before w' htrace hsettled h'
    exact h'.setWriteIdxMirror hsettled hroom (wordOf_add hn hmax hshort) (htakes.mono htrace)

/-- The copy reaches the end of the buffer and goes on at its start. -/
theorem Putting.copyRound (hn : 0 < n) (hmax : n ≤ 2 ^ 16) (h : Putting n a r [] w)
    (hroom : a + len ≤ r + n) (hlong : n - a % n ≤ len) (htakes : PutTakes ⟨data, trace, len⟩) :
    Safe n .producer data (do
      CircularBuf.storeBytes (a % n) (data.take (n - a % n))
      CircularBuf.storeBytes 0 ((data.drop (n - a % n)).take (len - (n - a % n)))
      CircularBuf.setWriteIdxMirror
        (cbMakePtrIdxMirror (asU16 (len - (n - a % n))) (flipMirror (mirrorOf n a)))
      return len) trace w w := by
  have hle := h.le
  have hlen : len ≤ data.length := htakes.fair.1
  have hfirst : (data.take (n - a % n)).length = n - a % n := length_take_of_le (by omega)
  refine h.storeBytes (settled_self h.inv _) ?_ ?_ ?_
  · intro j hj
    exact place_before_end (by omega)
  · rw [hfirst]
    exact Nat.le_trans (Nat.add_le_add_left hlong a) hroom
  · intro trace₁ before₁ w₁ htrace₁ hsettled₁ h₁
    rw [nil_append] at h₁
    have hsecond : ((data.drop (n - a % n)).take (len - (n - a % n))).length =
        len - (n - a % n) := length_take_of_le (by rw [length_drop]; omega)
    refine h₁.storeBytes hsettled₁ ?_ ?_ ?_
    · intro j hj
      rw [hfirst]
      exact place_after_end hn (by omega)
    · omega
    · intro trace₂ before₂ w₂ htrace₂ hsettled₂ h₂
      rw [← take_add, Nat.add_sub_cancel' hlong] at h₂
      exact h₂.setWriteIdxMirror hsettled₂ hroom (wordOf_wrap hn hmax hlong (by omega))
        ((htakes.mono htrace₁).mono htrace₂)

theorem put_safe (hn : 0 < n) (hmax : n ≤ 2 ^ 16) (h : Inv n w) :
    Safe n .producer data (put data) [] w w := by
  have hput := Putting.start h
  rw [put]
  split
  · rename_i hempty
    exact hput.refuse (.inl ⟨length_eq_zero_iff.mp hempty, rfl⟩)
  refine Putting.stable.bufferSize hput fun trace₁ w₁ htrace₁ h₁ => ?_
  rw [if_neg (Nat.ne_of_gt hn)]
  refine h₁.spaceLen hn hmax fun trace₂ r ring w₂ hseen hspace h₂ => ?_
  rw [htrace₁ _ (by decide)] at hseen
  have htakes : PutTakes ⟨data, trace₂, min ring.space data.length⟩ := .inr ⟨ring, hseen, rfl⟩
  rw [hspace] at htakes
  split
  · rename_i hfull
    rw [hfull, Nat.zero_min] at htakes
    exact h₂.refuse htakes
  refine Putting.stable.read_access h₂ (fun _ => rfl) fun w₃ h₃ => ?_
  refine Putting.stable.read_access h₃ (fun _ => rfl) fun w₄ h₄ => ?_
  have hword : (exec w₃.shared .writeIdxMirror).2 = wordOf n (accepted w).length := by
    rw [← h₃.count]
    exact h₃.inv.write
  have hpos := Nat.mod_lt (accepted w).length hn
  rw [hword, idx_wordOf hn hmax, mirror_wordOf]
  have hmin : (if n - ((accepted w).length - r) < data.length then
      n - ((accepted w).length - r) else data.length) =
      min (n - ((accepted w).length - r)) data.length := by grind
  rw [hmin]
  generalize hlen : min (n - ((accepted w).length - r)) data.length = len at htakes ⊢
  have hle := h₂.le
  have hroom : (accepted w).length + len ≤ r + n := by omega
  have htakes₄ : PutTakes ⟨data, trace₂ ++ [(.writeIdxMirror, w₃.shared)] ++
      [(.wrBufferPtr, w₄.shared)], len⟩ := htakes.mono (by simp)
  rw [if_neg (by omega)]
  split
  · exact h₄.copy hn hmax hroom ‹_› htakes₄
  · exact h₄.copyRound hn hmax hroom (by omega) htakes₄

end Put

/-! ## The consumer -/

/-- In a `get` that started after `c` bytes were returned and saw the write index at `a`.
The bytes `taken` are loaded. -/
structure Getting (n c a : Nat) (taken : List UInt8) (w : World) : Prop where
  inv : Inv n w
  count : (returned w).length = c
  write : a ≤ (accepted w).length
  taken : returned w ++ taken <+: accepted w

section Get

variable {n c a : Nat} {taken : List UInt8} {w : World}

theorem Getting.stable : Stable n .consumer (Getting n c a taken) := by
  refine ⟨Getting.inv, fun {w w'} h ⟨hdone, haccepted⟩ hinv => ?_⟩
  have hreturned : returned w' = returned w := by rw [returned, returned, hdone]
  refine ⟨hinv, ?_, Nat.le_trans h.write haccepted.length_le, ?_⟩
  · rw [hreturned, h.count]
  · rw [hreturned]
    exact h.taken.trans haccepted

theorem prefix_snoc {l m : List UInt8} (h : l <+: m) (hlt : l.length < m.length) :
    ∃ b, m[l.length]? = some b ∧ l ++ [b] <+: m := by
  obtain ⟨rest, rfl⟩ := h
  cases rest with
  | nil => simp at hlt
  | cons b rest => exact ⟨b, by simp, rest, by simp⟩

/-- The byte at the next place is the next one that was accepted. -/
theorem Getting.load (h : Getting n c a taken w) (hmore : c + taken.length < a) :
    Getting n c a (taken ++ [w.shared.data ((c + taken.length) % n)]) w := by
  have hwrite := h.write
  have hlen : (returned w ++ taken).length = c + taken.length := by
    rw [length_append, h.count]
  obtain ⟨b, hb, hnext⟩ := prefix_snoc h.taken (by omega)
  rw [hlen] at hb
  have hplace := h.inv.data _ b (by rw [h.count]; omega) hb
  rw [append_assoc] at hnext
  rw [hplace]
  exact ⟨h.inv, h.count, h.write, hnext⟩

/-- The return of a `get` that has loaded `taken` and moves the read index past it. -/
theorem Getting.finish (h : Getting n c a taken w) {outLen : Nat}
    {trace : List (Access × Ring)} (htakes : GetTakes ⟨outLen, trace, taken⟩) :
    Settled n .consumer w
      (Parallel.World.log
        { w with shared := (exec w.shared (.setReadIdxMirror (wordOf n (c + taken.length)))).1 }
        .consumer ⟨outLen, trace, taken⟩) := by
  set w' : World :=
    { w with shared := (exec w.shared (.setReadIdxMirror (wordOf n (c + taken.length)))).1 }
    with hw'
  have haccepted : accepted (w'.log .consumer ⟨outLen, trace, taken⟩) = accepted w :=
    accepted_log_get w' _
  have hreturned : returned (w'.log .consumer ⟨outLen, trace, taken⟩) = returned w ++ taken :=
    returned_log_get w' _
  refine ⟨⟨h.inv.size, h.inv.ptr, ?_, ?_, ?_, ?_, ?_, ?_, ?_⟩, fun u hu => ?_⟩
  · rw [hreturned, length_append, h.count]
    rfl
  · exact h.inv.write
  · have hfits := h.inv.fits
    rw [haccepted, hreturned, length_append]
    omega
  · rw [hreturned]
    exact h.taken
  · intro i b hi hb
    rw [hreturned, length_append] at hi
    exact h.inv.data i b (by omega) hb
  · exact h.inv.puts
  · exact forall_mem_append.mpr ⟨h.inv.gets, forall_mem_singleton.mpr htakes⟩
  · cases u with
    | consumer => exact absurd rfl hu
    | producer =>
      refine ⟨log_done_of_ne w' (by decide) _, rfl, ?_⟩
      rw [hreturned, length_append]
      omega

/-- The return of a `get` that found nothing. -/
theorem Getting.refuse (h : Getting n c a [] w) {outLen : Nat}
    {trace : List (Access × Ring)} (htakes : GetTakes ⟨outLen, trace, []⟩) :
    Settled n .consumer w (w.log .consumer ⟨outLen, trace, []⟩) := by
  have hsettled := h.finish htakes
  have hword : wordOf n (c + [].length (α := UInt8)) = w.shared.readIdxMirror := by
    rw [h.inv.read, h.count, length_nil, Nat.add_zero]
  rw [hword] at hsettled
  exact hsettled

variable {outLen : Nat} {trace : List (Access × Ring)} {before : World}

theorem Getting.start (h : Inv n w) : Getting n (returned w).length 0 [] w :=
  ⟨h, rfl, Nat.zero_le _, by rw [append_nil]; exact h.front⟩

theorem Getting.refresh (h : Getting n c a taken w) : Getting n c (accepted w).length taken w :=
  ⟨h.inv, h.count, Nat.le_refl _, h.taken⟩

theorem Getting.le (h : Getting n c a taken w) : a ≤ c + n := by
  have hfits := h.inv.fits
  rw [h.count] at hfits
  exact Nat.le_trans h.write hfits

/-- The data that `get` computes is that of the moment when it reads the write index.  The
read index, which it has read before, is its own. -/
theorem Getting.dataLen {k : Nat → RingProg (List UInt8)} (hn : 0 < n) (hmax : n ≤ 2 ^ 16)
    (h : Getting n c a taken w)
    (hk : ∀ trace' a ring w, seen .writeIdxMirror trace' = seen .writeIdxMirror trace ++ [ring] →
      ring.used = a - c → Getting n c a taken w →
      Safe n .consumer outLen (k (a - c)) trace' w w) :
    Safe n .consumer outLen (dataLen >>= k) trace w w := by
  rw [CircularBuf.dataLen, bind_assoc]
  refine Getting.stable.bufferSize h fun trace₁ w₁ htrace₁ h₁ => ?_
  rw [if_neg (Nat.ne_of_gt hn)]
  refine Getting.stable.read_access h₁ (fun _ => rfl) fun w₂ h₂ => ?_
  refine Getting.stable.read_access h₂ (fun _ => rfl) fun w₃ h₃ => ?_
  have hused : w₃.shared.used = (accepted w₃).length - c := by
    rw [h₃.inv.used_eq hn hmax, h₃.count]
  have hlen : lenOf n (exec w₂.shared .readIdxMirror).2 (exec w₃.shared .writeIdxMirror).2 =
      (accepted w₃).length - c := by
    rw [← hused, Ring.used, h₃.inv.size, Int.toNat_natCast, h₃.inv.read, h₃.count, ← h₂.count,
      ← h₂.inv.read]
    rfl
  have hnext := hk (trace₁ ++ [(.readIdxMirror, w₂.shared)] ++ [(.writeIdxMirror, w₃.shared)])
    _ _ w₃ (by simp [htrace₁]) hused h₃.refresh
  rw [← hlen] at hnext
  exact hnext

theorem Getting.loadBytes {k : List UInt8 → RingProg (List UInt8)} {i len : Nat}
    (h : Getting n c a taken w) (hplace : ∀ j < len, i + j = (c + taken.length + j) % n)
    (hmore : c + taken.length + len ≤ a)
    (hk : ∀ trace' w bytes, seen .writeIdxMirror trace' = seen .writeIdxMirror trace →
      bytes.length = len →
      Getting n c a (taken ++ bytes) w → Safe n .consumer outLen (k bytes) trace' w w) :
    Safe n .consumer outLen (loadBytes i len >>= k) trace w w := by
  induction len generalizing i taken trace w k with
  | zero => exact hk trace w [] rfl rfl (by rwa [append_nil])
  | succ len ih =>
    rw [CircularBuf.loadBytes]
    refine Getting.stable.read_access h (fun _ => rfl) fun w' h' => ?_
    have hi : i = (c + taken.length) % n := hplace 0 (Nat.succ_pos _)
    have hload := h'.load (by omega)
    rw [← hi] at hload
    change Safe n .consumer outLen ((CircularBuf.loadBytes (i + 1) len >>= _) >>= k) _ w' w'
    rw [bind_assoc]
    refine ih hload ?_ ?_ ?_
    · grind
    · rw [length_append, length_singleton]
      omega
    · intro trace' w'' bytes htrace hlen hget
      rw [append_assoc, singleton_append] at hget
      exact hk trace' w'' _ (htrace.trans (by simp))
        (by rw [length_cons, hlen]) hget

variable {out : List UInt8}

theorem GetTakes.mono {trace' : List (Access × Ring)} (h : GetTakes ⟨outLen, trace, out⟩)
    (htrace : seen .writeIdxMirror trace' = seen .writeIdxMirror trace) :
    GetTakes ⟨outLen, trace', out⟩ :=
  h.imp_right fun ⟨ring, hseen, hlen⟩ => ⟨ring, htrace.trans hseen, hlen⟩

/-- `get` ends by moving the read index past what it has loaded. -/
theorem Getting.setReadIdxMirror {v : Nat} (h : Getting n c a taken w)
    (hv : v = wordOf n (c + taken.length)) (htakes : GetTakes ⟨outLen, trace, taken⟩) :
    Safe n .consumer outLen (do setReadIdxMirror v; return taken) trace w w := by
  subst hv
  refine ⟨settled_self h.inv _, fun w' hrely hinv => ?_⟩
  exact (Getting.stable.others h hrely hinv).finish (htakes.mono (by simp))

/-- The copy stays before the end of the buffer. -/
theorem Getting.copy {len : Nat} (hn : 0 < n) (hmax : n ≤ 2 ^ 16) (h : Getting n c a [] w)
    (hmore : c + len ≤ a) (hshort : len < n - c % n)
    (htakes : ∀ out, out.length = len → GetTakes ⟨outLen, trace, out⟩) :
    Safe n .consumer outLen (do
      let out ← CircularBuf.loadBytes (c % n) len
      CircularBuf.setReadIdxMirror (cbMakePtrIdxMirror (asU16 (c % n + len)) (mirrorOf n c))
      return out) trace w w := by
  refine h.loadBytes (fun j hj => place_before_end (by omega)) hmore ?_
  intro trace' w' out htrace hlen h'
  rw [nil_append] at h'
  refine h'.setReadIdxMirror ?_ ((htakes out hlen).mono htrace)
  rw [hlen]
  exact wordOf_add hn hmax hshort

/-- The copy reaches the end of the buffer and goes on at its start. -/
theorem Getting.copyRound {len : Nat} (hn : 0 < n) (hmax : n ≤ 2 ^ 16) (h : Getting n c a [] w)
    (hmore : c + len ≤ a) (hlong : n - c % n ≤ len) (hle : len ≤ n)
    (htakes : ∀ out, out.length = len → GetTakes ⟨outLen, trace, out⟩) :
    Safe n .consumer outLen (do
      let out ← CircularBuf.loadBytes (c % n) (n - c % n)
      let rest ← CircularBuf.loadBytes 0 (len - (n - c % n))
      CircularBuf.setReadIdxMirror
        (cbMakePtrIdxMirror (asU16 (len - (n - c % n))) (flipMirror (mirrorOf n c)))
      return out ++ rest) trace w w := by
  refine h.loadBytes (fun j hj => place_before_end (by omega))
    (Nat.le_trans (Nat.add_le_add_left hlong c) hmore) ?_
  intro trace₁ w₁ out htrace₁ hout h₁
  rw [nil_append] at h₁
  refine h₁.loadBytes ?_ (by omega) ?_
  · intro j hj
    rw [hout]
    exact place_after_end hn (by omega)
  · intro trace₂ w₂ rest htrace₂ hrest h₂
    have hlen : (out ++ rest).length = len := by
      rw [length_append]
      omega
    refine h₂.setReadIdxMirror ?_ (((htakes _ hlen).mono htrace₁).mono htrace₂)
    rw [hlen]
    exact wordOf_wrap hn hmax hlong hle

theorem get_safe (hn : 0 < n) (hmax : n ≤ 2 ^ 16) (h : Inv n w) :
    Safe n .consumer outLen (get outLen) [] w w := by
  rw [get]
  split
  · rename_i hempty
    exact (Getting.start h).refuse (.inl ⟨hempty, rfl⟩)
  refine (Getting.start h).dataLen hn hmax fun trace₁ a ring w₁ hseen hused h₁ => ?_
  have htakes : ∀ out, out.length = min (a - (returned w).length) outLen →
      GetTakes ⟨outLen, trace₁, out⟩ := fun out hout => .inr ⟨ring, hseen, by rw [hout, hused]⟩
  split
  · rename_i hnone
    exact h₁.refuse (htakes [] (by rw [hnone, Nat.zero_min, length_nil]))
  refine Getting.stable.read_access h₁ (fun _ => rfl) fun w₂ h₂ => ?_
  refine Getting.stable.bufferSize h₂ fun trace₃ w₃ htrace₃ h₃ => ?_
  refine Getting.stable.read_access h₃ (fun _ => rfl) fun w₄ h₄ => ?_
  have hword : (exec w₂.shared .readIdxMirror).2 = wordOf n (returned w).length := by
    rw [← h₂.count]
    exact h₂.inv.read
  have hptr := h₄.inv.ptr
  have hpos := Nat.mod_lt (returned w).length hn
  have hle := h₄.le
  rw [hword, idx_wordOf hn hmax, mirror_wordOf]
  have hmin : (if a - (returned w).length < outLen then a - (returned w).length else outLen) =
      min (a - (returned w).length) outLen := by grind
  rw [hmin]
  generalize hlen : min (a - (returned w).length) outLen = len at htakes ⊢
  have hmore : (returned w).length + len ≤ a := by omega
  have htakes₄ : ∀ out, out.length = len →
      GetTakes ⟨outLen, trace₃ ++ [(.rdBufferPtr, w₄.shared)], out⟩ := fun out hout =>
    (htakes out hout).mono (by simp [htrace₃])
  change Safe n .consumer outLen
    (ite (n = 0 ∨ w₄.shared.rdBufferPtr = 0 ∨ n < (returned w).length % n) _ _) _ w₄ w₄
  rw [if_neg (by omega)]
  split
  · exact h₄.copy hn hmax hmore ‹_› htakes₄
  · exact h₄.copyRound hn hmax hmore (by omega) (by omega) htakes₄

end Get

/-! ## Whole runs -/

theorem rules (hn : 0 < n) (hmax : n ≤ 2 ^ 16) : Rules calls (Inv n) Rely := by
  refine ⟨Rely.refl, Rely.trans, fun t c w hw => ?_⟩
  cases t with
  | producer => exact put_safe hn hmax hw
  | consumer => exact get_safe hn hmax hw

abbrev State := Parallel.State Ring Side Access Access.Answer Side.Call Side.Result

/-- A ring after both sides have set it up, with no call yet. -/
def start (ring : Ring) (wrPool : Nat) (size : Int) (rdPool : Nat) : State where
  world := { shared := rdInit (wrInit ring wrPool size) rdPool, done := fun _ => [] }
  running := fun _ => none

theorem wordOf_zero (n : Nat) : wordOf n 0 = 0 := by
  rw [wordOf, mirrorOf, Nat.zero_mod, Nat.zero_div]
  rfl

theorem start_sound (ring : Ring) (wrPool : Nat) {size : Int} {rdPool : Nat}
    (hsize : size / 4 * 4 = n) (hptr : rdPool ≠ 0) :
    Parallel.Sound calls (Inv n) Rely (start ring wrPool size rdPool) := by
  refine ⟨⟨hsize, hptr, (wordOf_zero n).symm, (wordOf_zero n).symm, Nat.zero_le _,
    prefix_rfl, ?_, nofun, nofun⟩, nofun⟩
  intro i b _ hb
  cases hb

theorem lenOf_le (bufSize rdPtr wrPtr : Nat) : lenOf bufSize rdPtr wrPtr ≤ bufSize := by
  grind [lenOf]

section Runs

variable (ring : Ring) (wrPool rdPool : Nat) (size : Int)
  (es : List (Parallel.Event Side Side.Call)) (s : State)

theorem inv_of_run (hptr : rdPool ≠ 0) (hlow : 4 ≤ size) (hhigh : size ≤ 32767)
    (hrun : calls.run (start ring wrPool size rdPool) es = some s) :
    ∃ n : Nat, 0 < n ∧ n ≤ 2 ^ 16 ∧ size / 4 * 4 = n ∧ Inv n s.world := by
  obtain ⟨n, hsize⟩ : ∃ n : Nat, size / 4 * 4 = n := ⟨(size / 4 * 4).toNat, by omega⟩
  have hn : 0 < n := by omega
  have hmax : n ≤ 2 ^ 16 := by omega
  exact ⟨n, hn, hmax, hsize, ((start_sound ring wrPool hsize hptr).run (rules hn hmax) hrun).world⟩

/-- In every state of every run of one producer and one consumer over a ring of any size,
what `get` has returned is the first part of what `put` has accepted, the ring holds the
rest, and no call returned less than it could.  The buffer that the consumer reads is not
at address zero, which `get` takes for a ring that is not set up. -/
theorem ring_is_fifo (hptr : rdPool ≠ 0) (hlow : 4 ≤ size) (hhigh : size ≤ 32767)
    (hrun : calls.run (start ring wrPool size rdPool) es = some s) :
    s.world.shared.bufferSize = size / 4 * 4 ∧
      returned s.world <+: accepted s.world ∧
      s.world.shared.used = (accepted s.world).length - (returned s.world).length ∧
      (∀ rdPtr wrPtr, lenOf s.world.shared.bufferSize.toNat rdPtr wrPtr ≤ (size / 4 * 4).toNat) ∧
      (∀ r ∈ s.world.done .producer, PutFair r) ∧
      ∀ r ∈ s.world.done .consumer, GetFair r := by
  obtain ⟨n, hn, hmax, hsize, hinv⟩ :=
    inv_of_run ring wrPool rdPool size es s hptr hlow hhigh hrun
  rw [hinv.size, hsize]
  exact ⟨rfl, hinv.front, hinv.used_eq hn hmax, lenOf_le n,
    fun r hr => (hinv.puts r hr).fair, fun r hr => (hinv.gets r hr).fair⟩

end Runs

def zeroRing : Ring := ⟨0, 0, 0, 0, 0, fun _ => 0⟩

/-- A `get` that has read its own index before a `put` runs to its end. -/
def smallRun : List (Event Side Side.Call) :=
  [.call .consumer (2 : Nat), .act .consumer, .act .consumer, .call .producer [1, 2, 3]] ++
    replicate 11 (.act .producer) ++ replicate 7 (.act .consumer)

theorem ring_is_fifo_small : ∃ s, calls.run (start zeroRing 64 7 64) smallRun = some s ∧
    accepted s.world = [1, 2, 3] ∧ returned s.world = [1, 2] ∧ s.world.shared.used = 1 ∧
    returned s.world <+: accepted s.world := by
  refine ⟨_, rfl, rfl, rfl, rfl, ?_⟩
  exact (ring_is_fifo zeroRing 64 64 7 smallRun _ (by decide) (by decide) (by decide) rfl).2.1

end Rcard.CircularBuf
