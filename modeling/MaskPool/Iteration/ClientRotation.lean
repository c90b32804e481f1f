import MaskPool.Clients.Capacity
import MaskPool.Model.Iteration

/-!
# `client_for_each` is a rotation

The first pass uses the offset up while it advances the address, and calls back from
then on; the second calls back for as many addresses as were skipped and leaves from its
inner loop. Together they walk the enumerated addresses rotated by the offset. Since the
offset was reduced, the second pass is always entered and the final `-ESRCH` never
returned.
-/

namespace MaskPool

open Traversal

variable {host : Host} {client : Client} {σ τ : Type*}

/-- The addresses both passes walk: each prefix counted up for as many rounds as
`get_addr6_count` says. -/
def loopAddresses (host : Host) (client : Client) : List In6Addr :=
  client.flatMap fun listed =>
    List.iterate (addr6Iterations host) listed.address (getAddr6Count host listed).toNat

/-- The same with the true number of addresses of each prefix. -/
def clientSequence (host : Host) (client : Client) : List In6Addr :=
  client.flatMap fun listed =>
    List.iterate (addr6Iterations host) listed.address (2 ^ (128 - listed.len.toNat))

theorem loopAddresses_eq (host : Host) (hlen : LengthsWithin 97 128 client) :
    loopAddresses host client = clientSequence host client := by
  apply List.flatMap_congr
  intro listed hmem
  rw [getAddr6Count_toNat (hlen listed hmem).1 (hlen listed hmem).2]

theorem length_clientSequence (host : Host) (client : Client) :
    (clientSequence host client).length = addressTotal client := by
  simp [clientSequence, addressTotal, List.length_flatMap]

theorem addressLoop_eq (body : τ → In6Addr → Except (ℤ × σ) τ) (rounds : ℕ)
    (dummy : In6Addr) (s : τ) :
    addressLoop host body rounds dummy s =
      (List.iterate (addr6Iterations host) dummy rounds).foldlM body s := by
  induction rounds generalizing dummy s with
  | zero => rfl
  | succ rounds ih => simp only [addressLoop, ih, List.iterate, List.foldlM_cons]

theorem addressPass_eq (body : τ → In6Addr → Except (ℤ × σ) τ) (client : Client) (s : τ) :
    addressPass host body client s = (loopAddresses host client).foldlM body s := by
  rw [loopAddresses, foldlM_flatMap]
  simp only [addressPass, addressLoop_eq]

variable {cb : In6Addr → σ → ℤ × σ}

theorem forEachRound_zero (flag : Bool) (arg : σ) (dummy : In6Addr) :
    forEachRound cb { offset := BitVec.ofNat 32 0, flag := flag, arg := arg } dummy =
      settle (cb dummy arg) >>= fun arg =>
        .ok { offset := BitVec.ofNat 32 0, flag := true, arg := arg } := by
  unfold forEachRound
  exact if_pos rfl

theorem forEachRound_succ {offset : ℕ} (hoffset : offset + 1 < 2 ^ 32) (flag : Bool)
    (arg : σ) (dummy : In6Addr) :
    forEachRound cb { offset := BitVec.ofNat 32 (offset + 1), flag := flag, arg := arg } dummy =
      .ok { offset := BitVec.ofNat 32 offset, flag := flag, arg := arg } := by
  have hne : ¬BitVec.ofNat 32 (offset + 1) = 0 := by
    intro hzero
    have hnat := congrArg BitVec.toNat hzero
    rw [toNat_ofNat_index hoffset] at hnat
    cases hnat
  have hless : BitVec.ofNat 32 (offset + 1) - 1 = BitVec.ofNat 32 offset := by
    rw [BitVec.ofNat_add]
    exact BitVec.add_sub_cancel _ _
  unfold forEachRound
  rw [if_neg hne, hless]
  rfl

theorem foldlM_forEachRound (cb : In6Addr → σ → ℤ × σ) (addrs : List In6Addr) {offset : ℕ}
    (hoffset : offset < 2 ^ 32) (flag : Bool) (arg : σ) :
    addrs.foldlM (forEachRound cb)
        { offset := BitVec.ofNat 32 offset, flag := flag, arg := arg } =
      settle (untilStop cb (addrs.drop offset) arg) >>= fun arg =>
        .ok { offset := BitVec.ofNat 32 (offset - addrs.length)
              flag := flag || decide (offset < addrs.length)
              arg := arg } := by
  induction addrs generalizing offset flag arg with
  | nil => simp [untilStop, settle, bind, Except.bind, pure, Except.pure]
  | cons dummy addrs ih =>
    rw [List.foldlM_cons]
    cases offset with
    | zero =>
      rw [forEachRound_zero, List.drop_zero, settle_untilStop_cons]
      cases settle (cb dummy arg) with
      | error returned => rfl
      | ok arg =>
        have hrest := ih (show 0 < 2 ^ 32 by omega) true arg
        simp only [List.drop_zero, Nat.zero_sub, Bool.true_or] at hrest
        simp only [List.length_cons, Nat.zero_sub, Nat.zero_lt_succ, decide_true, Bool.or_true]
        exact hrest
    | succ offset =>
      have hrest := ih (show offset < 2 ^ 32 by omega) flag arg
      rw [forEachRound_succ hoffset, List.drop_succ_cons, List.length_cons,
        Nat.add_sub_add_right]
      simp only [Nat.add_lt_add_iff_right]
      exact hrest

theorem slt_index {i : ℕ} {clientIndex : Word} (hindex : clientIndex.toNat < 2 ^ 31)
    (hi : i ≤ clientIndex.toNat) :
    (BitVec.ofNat 32 i).slt clientIndex = decide (i < clientIndex.toNat) := by
  have hright : clientIndex.toInt = clientIndex.toNat :=
    BitVec.toInt_eq_toNat_of_lt (by omega)
  rw [BitVec.slt_eq_decide, toInt_ofNat_of_lt (by omega), hright]
  simp

theorem foldlM_forEachAuxRound (cb : In6Addr → σ → ℤ × σ) (addrs : List In6Addr)
    {clientIndex : Word} (hindex : clientIndex.toNat < 2 ^ 31) {i : ℕ}
    (hi : i ≤ clientIndex.toNat) (arg : σ) :
    addrs.foldlM (forEachAuxRound cb clientIndex)
        { clientIndexAux := BitVec.ofNat 32 i, arg := arg } =
      settle (untilStop cb (addrs.take (clientIndex.toNat - i)) arg) >>= fun arg =>
        if clientIndex.toNat - i < addrs.length then .error (0, arg)
        else .ok { clientIndexAux := BitVec.ofNat 32 (i + addrs.length), arg := arg } := by
  induction addrs generalizing i arg with
  | nil => simp [untilStop, settle, bind, Except.bind, pure, Except.pure]
  | cons dummy addrs ih =>
    rw [List.foldlM_cons, forEachAuxRound, slt_index hindex hi]
    by_cases hlt : i < clientIndex.toNat
    · have hnext : BitVec.ofNat 32 i + 1 = BitVec.ofNat 32 (i + 1) :=
        (BitVec.ofNat_add i 1).symm
      have htake : clientIndex.toNat - i = clientIndex.toNat - (i + 1) + 1 := by omega
      have hsum : i + 1 + addrs.length = i + (addrs.length + 1) := by omega
      rw [if_pos (decide_eq_true hlt), htake, List.take_succ_cons, settle_untilStop_cons,
        callBack, hnext, List.length_cons, ← hsum]
      simp only [Nat.add_lt_add_iff_right]
      cases settle (cb dummy arg) with
      | error returned => rfl
      | ok arg => exact ih hlt arg
    · have hdone : clientIndex.toNat - i = 0 := by omega
      rw [if_neg (by simpa using hlt), hdone]
      rfl

theorem clientForEach_zero (h : clientCount host client = 0) (cb : In6Addr → σ → ℤ × σ)
    (arg : σ) (offset : Word) : clientForEach host client cb arg offset = none := by
  unfold clientForEach
  exact if_pos h

/-- Where the count is the number of addresses walked, the function is one traversal. -/
theorem clientForEach_eq {n : ℕ} (hcount : (clientCount host client).toNat = n)
    (hlen : (loopAddresses host client).length = n) (hpos : 1 ≤ n) (hsmall : n < 2 ^ 31)
    (cb : In6Addr → σ → ℤ × σ) (arg : σ) (offset : Word) :
    clientForEach host client cb arg offset =
      some (untilStop cb ((loopAddresses host client).rotate (offset.toNat % n)) arg) := by
  have hne : clientCount host client ≠ 0 := by
    intro hzero
    rw [hzero] at hcount
    exact absurd hcount.symm (Nat.pos_iff_ne_zero.mp hpos)
  have hindex : (offset % clientCount host client).toNat = offset.toNat % n := by
    rw [BitVec.toNat_umod, hcount]
  have hlt : offset.toNat % n < n := Nat.mod_lt _ hpos
  have hfirst := foldlM_forEachRound cb (loopAddresses host client)
    (offset % clientCount host client).isLt false arg
  rw [BitVec.ofNat_toNat, BitVec.setWidth_eq, hindex, hlen, Nat.sub_eq_zero_of_le hlt.le,
    decide_eq_true hlt, Bool.or_true] at hfirst
  have hsecond (arg : σ) : (loopAddresses host client).foldlM
      (forEachAuxRound cb (offset % clientCount host client))
      { clientIndexAux := 0, arg := arg } =
        settle (untilStop cb ((loopAddresses host client).take (offset.toNat % n)) arg) >>=
          fun arg => .error (0, arg) := by
    have hround := foldlM_forEachAuxRound cb (loopAddresses host client)
      (show (offset % clientCount host client).toNat < 2 ^ 31 by omega) (Nat.zero_le _) arg
    simp only [hindex, hlen, Nat.sub_zero, if_pos hlt] at hround
    exact hround
  have htotal : client.foldl (fun total listed => total + getAddr6Count host listed) 0 =
    clientCount host client := rfl
  simp only [clientForEach, htotal, if_neg hne, addressPass_eq, hfirst]
  rw [List.rotate_eq_drop_append_take (hlen ▸ hlt.le), untilStop_append]
  cases settle (untilStop cb ((loopAddresses host client).drop (offset.toNat % n)) arg) with
  | error returned => rfl
  | ok arg =>
    simp only [bind, Except.bind, if_true, hsecond]
    generalize untilStop cb ((loopAddresses host client).take (offset.toNat % n)) arg = answer
    by_cases hstop : answer.1 = 0
    · rw [settle_zero hstop, ← hstop]
    · rw [settle_ne hstop]

/-- The callback meets the addresses of the database rotated left by the offset, each
index once, up to the first address it stops at, and its answer is the function's. -/
theorem clientForEach_rotates (hlen : LengthsWithin 98 128 client)
    (hpos : 1 ≤ addressTotal client) (hsmall : addressTotal client < 2 ^ 31)
    (cb : In6Addr → σ → ℤ × σ) (arg : σ) (offset : Word) :
    clientForEach host client cb arg offset =
        some (untilStop cb ((clientSequence host client).rotate
          (offset.toNat % addressTotal client)) arg) ∧
      (clientForEach host client (recording cb) (arg, []) offset).map (·.2.2) =
        some (visited cb ((clientSequence host client).rotate
          (offset.toNat % addressTotal client)) arg) := by
  have hlong : LengthsWithin 97 128 client := by
    intro listed hmem
    obtain ⟨hlo, hhi⟩ := hlen listed hmem
    omega
  have hcount : (clientCount host client).toNat = addressTotal client := by
    rw [clientCount_toNat, machineTotal_eq hlong, Nat.mod_eq_of_lt (by omega)]
  have hwalk := loopAddresses_eq host hlong
  have hsize : (loopAddresses host client).length = addressTotal client := by
    rw [hwalk, length_clientSequence]
  rw [← hwalk]
  constructor
  · exact clientForEach_eq hcount hsize hpos hsmall cb arg offset
  · rw [clientForEach_eq hcount hsize hpos hsmall, untilStop_recording]
    rfl

theorem clientForEach_rotates_twoPrefixes :
    clientForEach Host.x86 [⟨⟨1, 0, 0, 0⟩, 127⟩, ⟨⟨2, 0, 0, 7⟩, 128⟩]
          (fun _ seen => (if seen = 2 then -5 else 0, seen + 1)) 0 5 = some (-5, 3) ∧
      (clientForEach Host.x86 [⟨⟨1, 0, 0, 0⟩, 127⟩, ⟨⟨2, 0, 0, 7⟩, 128⟩]
          (recording fun _ seen => (if seen = 2 then -5 else 0, seen + 1)) (0, [])
          5).map (·.2.2) =
        some [⟨2, 0, 0, 7⟩, ⟨1, 0, 0, 0⟩, ⟨1, 0, 0, 1⟩] := by
  obtain ⟨hrun, hvisited⟩ :=
    clientForEach_rotates (by decide : LengthsWithin 98 128
        [⟨⟨1, 0, 0, 0⟩, 127⟩, ⟨⟨2, 0, 0, 7⟩, 128⟩]) (by decide) (by decide)
      (fun _ seen => (if seen = 2 then -5 else 0, seen + 1)) 0 5
  exact ⟨hrun.trans (by decide), hvisited.trans (by decide)⟩

end MaskPool
