import UdpArq.Channel.Socket
import UdpArq.Lib.Blocks

/-!
# A channel and the socket that reads from it

A line is a channel, the readings of its clock, and the place up to which the
socket at the other end has read.  The clock does not run backwards.  The socket
gets what the real `sendto` has taken, in the same order, but may miss some of
it.  Without jitter and reordering it never gets a packet that is older than the
latest one.
-/

namespace UdpArq

open Channel

/-- The message of the exception. -/
def Channel.SendError.what : SendError → String
  | .notBytesLike typeName => "data must be bytes-like, got " ++ typeName
  | .tooLarge size =>
      "datagram too large: " ++ toString size ++ " > " ++ toString MAX_DATAGRAM
  | .closed => "channel is closed"

structure Line where
  channel : Channel := Channel.init
  readings : List ℚ := []
  read : ℕ := 0

namespace Line

variable (p : Emulator)

/-- The clock does not run backwards. -/
def admits (l : Line) (reading : Option ℚ) : Bool :=
  reading.all fun now => l.readings.all fun r => decide (r ≤ now)

def turn (l : Line) (e : Channel.Event) : Line :=
  { l with
    channel := Channel.step p.impairments p.draws l.channel e
    readings := l.readings ++ e.reading.toList }

/-- What `channel.sendto` raises. -/
def refusal (l : Line) (packet : Bytes) (addr : Address) (now : ℚ) :
    Option String :=
  match l.channel.sendto p.impairments p.draws (.bytesLike packet) addr now with
  | .ok _ => none
  | .error e => some e.what

/-- What has been handed to the real socket for `addr`. -/
def arrivals (l : Line) (addr : Address) : List Popped :=
  l.channel.popped.filter fun x => decide (x.entry.addr = addr)

/-- The datagram number `j` for `addr`, if it is still to be read. -/
def datagram (l : Line) (addr : Address) (j : ℕ) : Option Bytes :=
  match (l.arrivals addr)[j]? with
  | none => none
  | some x =>
      if l.read ≤ j ∧ x.raised = false then some x.entry.data else none

/-- The packets that the channel has accepted for `addr`. -/
def sentTo (l : Line) (addr : Address) : List Accepted :=
  l.channel.accepted.filter fun x => decide (x.addr = addr)

variable {p} {l : Line} {addr : Address} {log : List Bytes} {latest : ℕ}

theorem admits_iff {reading : Option ℚ} :
    l.admits reading = true ↔ ∀ r ∈ l.readings, ∀ r' ∈ reading, r ≤ r' := by
  simp only [admits, Option.all_eq_true, List.all_eq_true, decide_eq_true_eq]
  constructor
  · exact fun h r hr r' hr' => h r' hr' r hr
  · exact fun h r' hr' r hr => h r hr r' hr'

theorem datagram_eq_some {j : ℕ} {raw : Bytes}
    (h : l.datagram addr j = some raw) :
    l.read ≤ j ∧ ∃ x, (l.arrivals addr)[j]? = some x ∧ x.raised = false ∧
      x.entry.data = raw := by
  unfold datagram at h
  cases hget : (l.arrivals addr)[j]? with
  | none =>
      rw [hget] at h
      cases h
  | some x =>
      simp only [hget] at h
      split_ifs at h with hread
      exact ⟨hread.1, x, rfl, hread.2, Option.some.inj h⟩

theorem closed_of_refusal {packet : Bytes} {a : Address} {now : ℚ}
    {what : String} (h : l.refusal p packet a now = some what)
    (hfits : packet.length ≤ MAX_DATAGRAM) : l.channel.closed = true := by
  by_contra hopen
  simp [refusal, Channel.sendto, not_lt.mpr hfits, hopen] at h

theorem channel_turn_of_refusal {packet : Bytes} {a : Address} {now : ℚ}
    {what : String} (h : l.refusal p packet a now = some what) :
    (l.turn p (.sendto (.bytesLike packet) a now)).channel = l.channel := by
  rw [refusal] at h
  cases hresult : l.channel.sendto p.impairments p.draws (.bytesLike packet) a
      now with
  | ok c =>
      rw [hresult] at h
      cases h
  | error e => simp only [turn, Channel.step, hresult]

/-- A call that does not raise is accepted. -/
theorem exists_accepted {packet : Bytes} {a : Address} {now : ℚ}
    (h : l.refusal p packet a now = none) :
    ∃ d, (l.turn p (.sendto (.bytesLike packet) a now)).channel.accepted =
      l.channel.accepted ++ [⟨packet, a, d, now⟩] := by
  rw [refusal] at h
  cases hresult : l.channel.sendto p.impairments p.draws (.bytesLike packet) a
      now with
  | ok c =>
      simp only [turn, Channel.step, hresult]
      simp only [Channel.sendto] at hresult
      split_ifs at hresult
      have hc := Except.ok.inj hresult
      have hbooks := (schedules_impair p.impairments (l.channel.intake packet a
        (nextDraws p.draws l.channel.drawn) now) packet a
        (nextDraws p.draws l.channel.drawn) now).books
      exact ⟨_, by rw [← hc, hbooks.accepted]; rfl⟩
  | error e =>
      rw [hresult] at h
      cases h

/-! ## Lines that keep the order -/

/-- The packets accepted for `addr` are `log`, and the socket has read nothing
younger than the packet number `latest`, and something of that packet or
nothing at all. -/
structure Carries (p : Emulator) (addr : Address) (l : Line) (log : List Bytes)
    (latest : ℕ) : Prop where
  queued : Queued p.impairments l.readings l.channel
  balanced : Balanced p.impairments l.channel
  sent : (l.sentTo addr).map Accepted.data = log
  le : latest ≤ log.length
  behind : (((l.sentTo addr).take latest).flatMap
    (Accepted.copies p.impairments)).length ≤ l.read

theorem carries_init (p : Emulator) (addr : Address) :
    Carries p addr {} [] 0 where
  queued := queued_init p.impairments
  balanced := balanced_init p.impairments
  sent := rfl
  le := le_rfl
  behind := le_rfl

/-- A step that accepts `new`. -/
theorem Carries.turn (h : Carries p addr l log latest)
    (hjitter : p.impairments.jitter = 0) (hreorder : p.impairments.reorder = 0)
    {e : Channel.Event} (hadmits : l.admits e.reading = true) {new : List Accepted}
    (hnew : (l.turn p e).channel.accepted = l.channel.accepted ++ new) :
    Carries p addr (l.turn p e)
      (log ++ (new.filter fun x => decide (x.addr = addr)).map Accepted.data)
      latest := by
  have hsent : (l.turn p e).sentTo addr =
      l.sentTo addr ++ new.filter fun x => decide (x.addr = addr) := by
    rw [sentTo, hnew, List.filter_append, sentTo]
  have hle : latest ≤ (l.sentTo addr).length := by
    have := h.le
    rwa [← h.sent, List.length_map] at this
  refine ⟨?_, h.balanced.step p.draws e, ?_, ?_, ?_⟩
  · exact h.queued.step h.balanced.numbered hjitter hreorder p.draws e
      (admits_iff.mp hadmits)
  · rw [hsent, List.map_append, h.sent]
  · rw [List.length_append]
    exact h.le.trans (Nat.le_add_right _ _)
  · rw [hsent, List.take_append_of_le_length hle]
    exact h.behind

theorem Carries.idle (h : Carries p addr l log latest)
    (hjitter : p.impairments.jitter = 0) (hreorder : p.impairments.reorder = 0)
    {e : Channel.Event} (hadmits : l.admits e.reading = true)
    (hsame : (l.turn p e).channel.accepted = l.channel.accepted) :
    Carries p addr (l.turn p e) log latest := by
  have hturn := h.turn hjitter hreorder hadmits
    (hsame.trans (List.append_nil _).symm)
  simpa using hturn

/-- The call of `channel.sendto` for a packet to `addr`. -/
theorem Carries.send (h : Carries p addr l log latest)
    (hjitter : p.impairments.jitter = 0) (hreorder : p.impairments.reorder = 0)
    (packet : Bytes) {now : ℚ} (hadmits : l.admits (some now) = true) :
    Carries p addr (l.turn p (.sendto (.bytesLike packet) addr now))
      (log ++ if l.refusal p packet addr now = none then [packet] else [])
      latest := by
  rcases hrefusal : l.refusal p packet addr now with _ | what
  · obtain ⟨d, haccepted⟩ := exists_accepted hrefusal
    have hturn := h.turn hjitter hreorder
      (e := .sendto (.bytesLike packet) addr now) hadmits haccepted
    simpa using hturn
  · have hidle := h.idle hjitter hreorder
      (e := .sendto (.bytesLike packet) addr now) hadmits
      (congrArg accepted (channel_turn_of_refusal hrefusal))
    simpa using hidle

/-- The call for a packet to somebody else. -/
theorem Carries.send_other (h : Carries p addr l log latest)
    (hjitter : p.impairments.jitter = 0) (hreorder : p.impairments.reorder = 0)
    {packet : Bytes} {a : Address} (ha : a ≠ addr) {now : ℚ}
    (hadmits : l.admits (some now) = true) :
    Carries p addr (l.turn p (.sendto (.bytesLike packet) a now)) log
      latest := by
  rcases hrefusal : l.refusal p packet a now with _ | what
  · obtain ⟨d, haccepted⟩ := exists_accepted hrefusal
    have hturn := h.turn hjitter hreorder
      (e := .sendto (.bytesLike packet) a now) hadmits haccepted
    simpa [ha] using hturn
  · exact h.idle hjitter hreorder (e := .sendto (.bytesLike packet) a now) hadmits
      (congrArg accepted (channel_turn_of_refusal hrefusal))

/-- A datagram that the socket has passed over. -/
theorem Carries.skip (h : Carries p addr l log latest) {j : ℕ}
    (hread : l.read ≤ j) : Carries p addr { l with read := j + 1 } log latest :=
  ⟨h.queued, h.balanced, h.sent, h.le,
    h.behind.trans (hread.trans (Nat.le_succ j))⟩

/-- The copies of the packets that were accepted for `addr`. -/
theorem filter_copies (p : Impairments) (addr : Address) (xs : List Accepted) :
    (xs.flatMap (Accepted.copies p)).filter (fun y => decide (y.2 = addr)) =
      (xs.filter fun x => decide (x.addr = addr)).flatMap
        (Accepted.copies p) := by
  induction xs with
  | nil => rfl
  | cons x xs ih =>
      have hcopies : ∀ y ∈ x.copies p, y.2 = x.addr := by
        intro y hy
        unfold Accepted.copies Accepted.carried at hy
        split_ifs at hy
        · cases hy
        · simp only [List.mem_cons, List.not_mem_nil, or_false, or_self] at hy
          rw [hy]
        · rw [List.mem_singleton.mp hy]
      rw [List.flatMap_cons, List.filter_append, ih, List.filter_cons]
      by_cases haddr : x.addr = addr
      · rw [if_pos (decide_eq_true haddr), List.flatMap_cons]
        congr 1
        rw [List.filter_eq_self]
        exact fun y hy => decide_eq_true ((hcopies y hy).trans haddr)
      · rw [if_neg (by simpa using haddr)]
        have hnone : (x.copies p).filter (fun y => decide (y.2 = addr)) = [] := by
          rw [List.filter_eq_nil_iff]
          intro y hy
          rw [hcopies y hy]
          simpa using haddr
        rw [hnone, List.nil_append]

/-- What the socket at `addr` gets are the copies of the packets accepted for
it, in their order. -/
theorem Carries.arrivals_prefix (h : Carries p addr l log latest) :
    ((l.arrivals addr).map fun x => x.entry.packet) <+:
      (l.sentTo addr).flatMap (Accepted.copies p.impairments) := by
  have hfilter := congrArg (List.filter fun y => decide (y.2 = addr))
    h.queued.packets
  rw [List.filter_append, filter_copies] at hfilter
  have hhanded : l.channel.handed.filter (fun y => decide (y.2 = addr)) =
      (l.arrivals addr).map fun x => x.entry.packet := by
    rw [handed, List.filter_map]
    rfl
  rw [hhanded] at hfilter
  exact ⟨_, hfilter⟩

theorem Carries.read (h : Carries p addr l log latest) {j : ℕ} {raw : Bytes}
    (hraw : l.datagram addr j = some raw) :
    ∃ i flip sent, log[i]? = some sent ∧ raw = corrupt sent flip ∧
      latest ≤ i ∧ Carries p addr { l with read := j + 1 } log i := by
  obtain ⟨hread, x, hget, -, rfl⟩ := datagram_eq_some hraw
  have hpacket : ((l.sentTo addr).flatMap
      (Accepted.copies p.impairments))[j]? = some x.entry.packet := by
    obtain ⟨rest, hrest⟩ := h.arrivals_prefix
    have hlt : j < ((l.arrivals addr).map fun x => x.entry.packet).length := by
      rw [List.length_map]
      exact (List.getElem?_eq_some_iff.mp hget).1
    rw [← hrest, List.getElem?_append_left hlt, List.getElem?_map, hget]
    rfl
  obtain ⟨i, y, hi, hcopy, hwithin⟩ := exists_within hpacket
  obtain ⟨flip, hflip⟩ :=
    exists_corrupt p.impairments.corruption y.draws.corruption y.data
  have hcarried : x.entry.packet = y.carried p.impairments := by
    unfold Accepted.copies at hcopy
    split_ifs at hcopy
    · cases hcopy
    · simpa using hcopy
    · exact List.mem_singleton.mp hcopy
  have hlog : log[i]? = some y.data := by
    rw [← h.sent, List.getElem?_map, hi]
    rfl
  refine ⟨i, flip, y.data, hlog, ?_, ?_, h.queued, h.balanced, h.sent, ?_, ?_⟩
  · exact (congrArg Prod.fst hcarried).trans hflip
  · exact hwithin.le (h.behind.trans hread)
  · exact (List.getElem?_eq_some_iff.mp hlog).1.le
  · exact hwithin.ge.trans (Nat.le_succ j)

end Line

end UdpArq
