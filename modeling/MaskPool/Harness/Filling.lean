import MaskPool.Foundations.Cycles
import MaskPool.Iteration.MaskRotation
import MaskPool.Model.Harness

/-!
# What the self-test expects

`fill_exp_masks` copies one mask and returns. `fill_exp_in6_addr` goes round the clients
until its array of 7 is full: it stops at an address that ends in 14, and with any other
number of clients than a divisor of 7 it writes behind the array.
-/

namespace MaskPool.Harness

open Traversal Cycles

variable {α κ : Type} [DecidableEq κ] {fields : Fields α κ}

/-- The function comes back with these elements at the front of `_exp`, `_seen` untouched. -/
def FilledWith (slots : List (Slot α)) (exps : List α) (outcome : Filling α) : Prop :=
  ∃ slots', outcome = .filled slots' ∧
    slots'.map Slot.exp = exps ++ (slots.map Slot.exp).drop exps.length ∧
    slots'.map Slot.seen = slots.map Slot.seen

def fillMask (s : List (Slot Pool4Mask) × ℕ) (mask : Pool4Mask) :
    Except (Filling Pool4Mask) (List (Slot Pool4Mask) × ℕ) :=
  match expectAt maskFields mask s.2 s.1 with
  | some slots => throw (.filled slots)
  | none => throw .overrun

theorem fillMasks_eq (cpool : Pool4) (s : List (Slot Pool4Mask) × ℕ) :
    cpool.foldlM (fun s entry => (entryPorts entry).foldlM (fillPort entry) s) s =
      (poolTuples cpool).foldlM fillMask s := by
  rw [poolTuples, foldlM_flatMap]
  simp only [entryTuples, List.foldlM_map]
  rfl

theorem fillExpMasks_cons {cpool : Pool4} {mask : Pool4Mask} {masks : List Pool4Mask}
    (hfirst : poolTuples cpool = mask :: masks) (fuel : ℕ) {slots : List (Slot Pool4Mask)}
    (hslots : slots ≠ []) :
    fillExpMasks (fuel + 1) cpool slots =
      .filled (slots.modify 0 fun slot => { slot with exp := maskFields.store mask slot.exp }) := by
  rw [fillExpMasks, fillWhile, if_pos (Nat.zero_le _), fillMasks_eq, hfirst, List.foldlM_cons,
    fillMask, expectAt, if_pos (List.length_pos_iff.mpr hslots)]
  rfl

def expectAll : ℕ → List In6Addr → List (Slot In6Addr) → List (Slot In6Addr)
  | _, [], slots => slots
  | i, x :: xs, slots => expectAll (i + 1) xs (slots.modify i fun slot => { slot with exp := x })

theorem expectAll_append (i : ℕ) (xs ys : List In6Addr) (slots : List (Slot In6Addr)) :
    expectAll i (xs ++ ys) slots = expectAll (i + xs.length) ys (expectAll i xs slots) := by
  induction xs generalizing i slots with
  | nil => rfl
  | cons x xs ih =>
    have hnext : i + 1 + xs.length = i + (x :: xs).length := by
      rw [List.length_cons]
      omega
    rw [List.cons_append, expectAll, ih, hnext, expectAll]

@[simp] theorem length_expectAll (i : ℕ) (xs : List In6Addr) (slots : List (Slot In6Addr)) :
    (expectAll i xs slots).length = slots.length := by
  induction xs generalizing i slots with
  | nil => rfl
  | cons x xs ih => rw [expectAll, ih, List.length_modify]

theorem map_seen_modify (x : In6Addr) (i : ℕ) (slots : List (Slot In6Addr)) :
    (slots.modify i fun slot => { slot with exp := x }).map Slot.seen =
      slots.map Slot.seen := by
  apply List.ext_getElem?
  intro j
  rw [List.getElem?_map, List.getElem?_map, List.getElem?_modify]
  cases slots[j]? with
  | none => rfl
  | some slot =>
    by_cases hij : i = j <;> simp [hij]

theorem map_exp_modify (x : In6Addr) (i : ℕ) (slots : List (Slot In6Addr)) :
    (slots.modify i fun slot => { slot with exp := x }).map Slot.exp =
      (slots.map Slot.exp).set i x := by
  apply List.ext_getElem?
  intro j
  rw [List.getElem?_map, List.getElem?_modify, List.getElem?_set, List.getElem?_map,
    List.length_map]
  by_cases hij : i = j
  · subst hij
    by_cases hi : i < slots.length
    · simp [hi]
    · simp [hi]
  · cases slots[j]? <;> simp [hij]

theorem seen_expectAll (i : ℕ) (xs : List In6Addr) (slots : List (Slot In6Addr)) :
    (expectAll i xs slots).map Slot.seen = slots.map Slot.seen := by
  induction xs generalizing i slots with
  | nil => rfl
  | cons x xs ih => rw [expectAll, ih, map_seen_modify]

theorem exp_expectAll (i : ℕ) (xs : List In6Addr) (slots : List (Slot In6Addr))
    (hroom : i + xs.length ≤ slots.length) :
    (expectAll i xs slots).map Slot.exp =
      (slots.map Slot.exp).take i ++ xs ++ (slots.map Slot.exp).drop (i + xs.length) := by
  induction xs generalizing i slots with
  | nil => simp [expectAll]
  | cons x xs ih =>
    rw [List.length_cons] at hroom
    have hi : i < (slots.map Slot.exp).length := by
      rw [List.length_map]
      omega
    have hlast : i + 1 + xs.length = i + (x :: xs).length := by
      rw [List.length_cons]
      omega
    have hfront : ((slots.map Slot.exp).set i x).take (i + 1) =
        (slots.map Slot.exp).take i ++ [x] := by
      rw [List.take_add_one, List.take_set_of_le (Nat.le_refl i), List.getElem?_set_self hi]
      rfl
    rw [expectAll, ih _ _ (by rw [List.length_modify]; omega), map_exp_modify, hfront,
      List.drop_set_of_lt (by omega), hlast, List.append_assoc _ [x], List.singleton_append]

/-- The address ends the loop of `fill_exp_in6_addr`, and the traversal of `callback`. -/
def endsIn14 (host : Host) (addr : In6Addr) : Bool := lastByte host addr = 14

/-- The addresses of the entries, as far as one pass copies them. -/
def copied (host : Host) (client : Client) : List In6Addr :=
  upTo (endsIn14 host) (client.map Ipv6Prefix.address)

def stopping (host : Host) (client : Client) : Bool :=
  client.any fun listed => endsIn14 host listed.address

theorem copied_cons (host : Host) (listed : Ipv6Prefix) (client : Client) :
    copied host (listed :: client) =
      if endsIn14 host listed.address then [listed.address]
      else listed.address :: copied host client := rfl

theorem fillAddress_eq (host : Host) (listed : Ipv6Prefix) {i : ℕ} {slots : List (Slot In6Addr)}
    (hroom : i < slots.length) :
    fillAddress host (slots, i) listed =
      if endsIn14 host listed.address then
        .error (.filled (slots.modify i fun slot => { slot with exp := listed.address }))
      else .ok (slots.modify i fun slot => { slot with exp := listed.address }, i + 1) := by
  rw [fillAddress, expectAt, if_pos hroom, endsIn14]
  simp only [decide_eq_true_eq]
  rfl

theorem fillAddresses_eq (host : Host) (client : Client) (i : ℕ) (slots : List (Slot In6Addr))
    (hi : i ≤ slots.length) :
    client.foldlM (fillAddress host) (slots, i) =
      if slots.length < i + (copied host client).length then .error .overrun
      else if stopping host client then .error (.filled (expectAll i (copied host client) slots))
      else .ok (expectAll i (copied host client) slots, i + (copied host client).length) := by
  induction client generalizing i slots with
  | nil =>
    have hroom : ¬slots.length < i + (copied host []).length := Nat.not_lt.mpr hi
    rw [if_neg hroom]
    rfl
  | cons listed client ih =>
    rw [List.foldlM_cons]
    by_cases hroom : i < slots.length
    · rw [fillAddress_eq host listed hroom, copied_cons, stopping, List.any_cons]
      cases hstop : endsIn14 host listed.address with
      | true =>
        have hfits : ¬slots.length < i + [listed.address].length := by
          rw [List.length_singleton]
          omega
        rw [if_pos rfl, if_pos rfl, if_neg hfits, Bool.true_or, if_pos rfl]
        rfl
      | false =>
        have hrest := ih (i + 1) (slots.modify i fun slot => { slot with exp := listed.address })
          (by rw [List.length_modify]; omega)
        have hlength : i + 1 + (copied host client).length =
            i + (listed.address :: copied host client).length := by
          rw [List.length_cons]
          omega
        rw [List.length_modify, hlength] at hrest
        exact hrest
    · have hfull : fillAddress host (slots, i) listed = .error .overrun := by
        rw [fillAddress, expectAt, if_neg hroom]
        rfl
      have hlong : slots.length < i + (copied host (listed :: client)).length := by
        rw [copied_cons]
        split_ifs <;> simp only [List.length_cons] <;> omega
      rw [hfull, if_pos hlong]
      rfl

theorem copied_eq {host : Host} {client : Client} (h : stopping host client = false) :
    copied host client = client.map Ipv6Prefix.address := by
  apply upTo_eq_self
  rw [List.any_map]
  exact h

theorem filledWith_expectAll {xs : List In6Addr} {slots : List (Slot In6Addr)}
    (hroom : xs.length ≤ slots.length) :
    FilledWith slots xs (.filled (expectAll 0 xs slots)) := by
  refine ⟨_, rfl, ?_, seen_expectAll 0 xs slots⟩
  rw [exp_expectAll 0 xs slots (by omega), List.take_zero, List.nil_append, Nat.zero_add]

/-- Round after round without an address that ends the loop, `i` being a number of rounds. -/
theorem fillWhile_rounds {host : Host} {client : Client} (hclient : client ≠ [])
    (hgoes : stopping host client = false) {slots : List (Slot In6Addr)}
    (hslots : slots.length = 7) (fuel rounds : ℕ) (hrounds : rounds * client.length ≤ 7)
    (hfuel : 8 ≤ fuel + rounds * client.length) :
    fillWhile 6 (fun s => client.foldlM (fillAddress host) s) fuel
        (expectAll 0 (around (client.map Ipv6Prefix.address) 0 (rounds * client.length)) slots,
          rounds * client.length) =
      if client.length ∣ 7 then
        .filled (expectAll 0 (around (client.map Ipv6Prefix.address) 0 7) slots)
      else .overrun := by
  have hpos : 0 < client.length := List.length_pos_iff.mpr hclient
  have haddrs : client.map Ipv6Prefix.address ≠ [] := by simpa using hclient
  induction fuel generalizing rounds with
  | zero => omega
  | succ fuel ih =>
    have hround := around_round (client.map Ipv6Prefix.address) rounds
    rw [List.length_map] at hround
    rw [fillWhile]
    by_cases hdone : rounds * client.length ≤ 6
    · rw [if_pos hdone, fillAddresses_eq _ _ _ _ (by rw [length_expectAll]; omega),
        length_expectAll, hslots, copied_eq hgoes, List.length_map, hgoes]
      by_cases hover : 7 < rounds * client.length + client.length
      · have hdvd : ¬client.length ∣ 7 := by
          rintro ⟨k, hk⟩
          have hmore : rounds < k := by nlinarith
          nlinarith
        rw [if_pos hover, if_neg hdvd]
      · have hstep : expectAll (rounds * client.length) (client.map Ipv6Prefix.address)
            (expectAll 0 (around (client.map Ipv6Prefix.address) 0 (rounds * client.length))
              slots) =
            expectAll 0 (around (client.map Ipv6Prefix.address) 0
              ((rounds + 1) * client.length)) slots := by
          rw [Nat.add_one_mul, around_append, expectAll_append, length_around haddrs,
            Nat.zero_add, hround]
        have hnext := ih (rounds + 1) (by rw [Nat.add_one_mul]; omega)
          (by rw [Nat.add_one_mul]; omega)
        rw [if_neg hover, if_neg Bool.false_ne_true, hstep, ← Nat.add_one_mul]
        exact hnext
    · have hseven : rounds * client.length = 7 := by omega
      rw [if_neg hdone, hseven, if_pos ⟨rounds, by rw [← hseven, Nat.mul_comm]⟩]

theorem fillExpIn6Addr_nil (host : Host) (fuel : ℕ) (slots : List (Slot In6Addr)) :
    fillExpIn6Addr host fuel [] slots = .running := by
  induction fuel with
  | zero => rfl
  | succ fuel ih => exact ih

theorem fillExpIn6Addr_stopping {host : Host} {client : Client}
    (hstops : stopping host client = true) {slots : List (Slot In6Addr)} (fuel : ℕ) :
    fillExpIn6Addr host (fuel + 1) client slots =
      if slots.length < (copied host client).length then .overrun
      else .filled (expectAll 0 (copied host client) slots) := by
  rw [fillExpIn6Addr, fillWhile, if_pos (Nat.zero_le _),
    fillAddresses_eq host client 0 slots (Nat.zero_le _), Nat.zero_add, hstops, if_pos rfl]
  split_ifs <;> rfl

theorem fillExpIn6Addr_going {host : Host} {client : Client} (hclient : client ≠ [])
    (hgoes : stopping host client = false) {slots : List (Slot In6Addr)}
    (hslots : slots.length = 7) {fuel : ℕ} (hfuel : 8 ≤ fuel) :
    fillExpIn6Addr host fuel client slots =
      if client.length ∣ 7 then
        .filled (expectAll 0 (around (client.map Ipv6Prefix.address) 0 7) slots)
      else .overrun := by
  have hrounds := fillWhile_rounds hclient hgoes hslots fuel 0 (by omega) (by omega)
  rw [Nat.zero_mul, around, expectAll] at hrounds
  exact hrounds

/-- `fill_exp_in6_addr` on its array of 7: it goes round the clients, comes back at the first
address that ends in 14 or when the array is full to the brim, and writes behind the array
in every other case. Without a client it never comes back. -/
theorem fillExpIn6Addr_outcome (host : Host) (client : Client) {slots : List (Slot In6Addr)}
    (hslots : slots.length = 7) {fuel : ℕ} (hfuel : 8 ≤ fuel) :
    let outcome := fillExpIn6Addr host fuel client slots
    if client = [] then outcome = .running
    else if stopping host client then
      if (copied host client).length ≤ 7 then FilledWith slots (copied host client) outcome
      else outcome = .overrun
    else if client.length ∣ 7 then
      FilledWith slots (around (client.map Ipv6Prefix.address) 0 7) outcome
    else outcome = .overrun := by
  dsimp only
  obtain ⟨fuel, rfl⟩ : ∃ f, fuel = f + 1 := ⟨fuel - 1, by omega⟩
  split_ifs with hclient hstops hfits hdvd
  · rw [hclient]
    exact fillExpIn6Addr_nil host _ slots
  · rw [fillExpIn6Addr_stopping hstops, if_neg (by omega)]
    exact filledWith_expectAll (by omega)
  · rw [fillExpIn6Addr_stopping hstops, if_pos (by omega)]
  · have haddrs : client.map Ipv6Prefix.address ≠ [] := by simpa using hclient
    have hround := length_around haddrs 0 7
    rw [fillExpIn6Addr_going hclient (Bool.not_eq_true _ ▸ hstops) hslots hfuel, if_pos hdvd]
    exact filledWith_expectAll (by omega)
  · rw [fillExpIn6Addr_going hclient (Bool.not_eq_true _ ▸ hstops) hslots hfuel, if_neg hdvd]

def fourClients : Client :=
  [⟨⟨0, 0, 0, 1⟩, 128⟩, ⟨⟨0, 0, 0, 2⟩, 128⟩, ⟨⟨0, 0, 0, 3⟩, 128⟩, ⟨⟨0, 0, 0, 4⟩, 128⟩]

theorem fillExpIn6Addr_outcome_fourClients :
    fillExpIn6Addr Host.x86 8 fourClients (expecting zeroAddr (List.replicate 7 zeroAddr)) =
      .overrun := by
  have h := fillExpIn6Addr_outcome Host.x86 fourClients
    (by decide : (expecting zeroAddr (List.replicate 7 zeroAddr)).length = 7) (Nat.le_refl 8)
  dsimp only at h
  rwa [if_neg (by decide), if_neg (by decide), if_neg (by decide)] at h

end MaskPool.Harness
