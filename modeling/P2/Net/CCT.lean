import P2.Lib.KeyedTree
import P2.Lib.Runs
import P2.Value.Order
import Mathlib.Data.Rat.Defs

/-!
# Congestion control

`CCT` releases tuples while its window is open. The tuples it has released, and that were neither
acknowledged nor timed out, are kept in a map from destinations to maps from sequence numbers.

The callback that wakes up the puller is not a pull; it is followed by one later.
-/

namespace P2.Net

open P2.Value P2.Lib

structure CCTuple where
  dest : Value
  seq : Int64
  tcb : Bool := true
  wnd : Bool := true

def CCTuple.clearWnd (t : CCTuple) : CCTuple := { t with wnd := false }

def CCTuple.clearTcb (t : CCTuple) : CCTuple := { t with tcb := false }

/-- The element. Inner maps and tuples are objects, named by their positions in the lists of all that
were made; a timer is named by the tuple that it is bound to. -/
structure CCT where
  dataOn : Bool := true
  dataCb : Bool := false
  maxWnd : ℚ
  cwnd : ℚ
  ssthresh : ℚ
  tmap : SearchTree (Value × ℕ) := .nil
  maps : List (List (Int64 × ℕ)) := []
  tuples : List CCTuple := []
  timers : List ℕ := []

namespace CCT

def mk' (init_wnd max_wnd : ℚ) : CCT :=
  { maxWnd := max_wnd, cwnd := init_wnd, ssthresh := max_wnd }

def currentWindow (s : CCT) : ℤ := s.tmap.size

/-- `max_window`: the conversion to `int` cuts the fraction off. -/
def maxWindow (s : CCT) : ℤ := s.cwnd.num.tdiv s.cwnd.den

def successTransmit (s : CCT) : CCT :=
  let cwnd := if s.cwnd < s.ssthresh then s.cwnd * 2 else s.cwnd + 1
  { s with cwnd := if s.maxWnd < cwnd then s.maxWnd else cwnd }

def failureTransmit (s : CCT) : CCT :=
  let ssthresh := s.cwnd / 2
  { s with ssthresh := if ssthresh < 2 then 2 else ssthresh, cwnd := 2 }

def wake (s : CCT) : CCT := { s with dataCb := false }

/-- The entry for a new tuple in the map of its destination; a number that is there keeps its tuple. -/
def insertSeq (seq : Int64) (otp : ℕ) (m : List (Int64 × ℕ)) : List (Int64 × ℕ) :=
  if m.any (·.1 = seq) then m else m ++ [(seq, otp)]

/-- `CCT::map`, for a new tuple. -/
def map (dest : Value) (seq : Int64) (s : CCT) : CCT :=
  let otp := s.tuples.length
  let s : CCT := { s with tuples := s.tuples ++ [{ dest := dest, seq := seq }] }
  let s : CCT := match s.tmap.findKeyed comparator dest with
    | none =>
      { s with
        tmap := s.tmap.insertKeyed comparator dest s.maps.length
        maps := s.maps ++ [insertSeq seq otp []] }
    | some i => { s with maps := s.maps.modify i.2 (insertSeq seq otp) }
  { s with timers := s.timers ++ [otp] }

def dealloc (dest : Value) (seq : Int64) (s : CCT) : CCT :=
  match s.tmap.findKeyed comparator dest with
  | none => s
  | some iter =>
    let m := (s.maps[iter.2]?).getD []
    match m.find? (·.1 = seq) with
    | none => s
    | some record =>
      let set := (s.tuples[record.2]?.map (·.tcb)).getD false
      let s : CCT := if set then { s with timers := s.timers.filter (· ≠ record.2) } else s
      let m := m.filter (·.1 ≠ seq)
      let s : CCT := { s with maps := s.maps.set iter.2 m }
      let s : CCT := if m.length = 0 then { s with tmap := s.tmap.eraseFound comparator dest } else s
      if s.currentWindow < s.maxWindow ∧ s.dataOn ∧ s.dataCb then s.wake else s

def dataReady (s : CCT) : CCT := ({ s with dataOn := true } : CCT).wake

def held (s : CCT) : List ℕ :=
  s.tmap.toList.flatMap fun i => ((s.maps[i.2]?).getD []).map (·.2)

def timeoutCb (otp : ℕ) (s : CCT) : CCT :=
  match s.tuples[otp]? with
  | none => s
  | some t =>
    let s : CCT := if t.wnd then
        let s := s.failureTransmit
        { s with
          tuples := s.held.foldl (fun tuples a => tuples.modify a CCTuple.clearWnd) s.tuples }
      else s
    let s : CCT := { s with tuples := s.tuples.modify otp CCTuple.clearTcb }
    s.dealloc t.dest t.seq

/-! ## Runs -/

inductive Event where
  /-- The output pulls; the input has a tuple with this destination and number, or none. -/
  | pull (offer : Option (Value × Int64))
  | ack (dest : Value) (seq : Int64)
  | dataReady
  | timeout (otp : ℕ)

structure Flight where
  dest : Value
  seq : Int64
  otp : ℕ

inductive Happening where
  | released (f : Flight)
  | acknowledged (dest : Value) (seq : Int64)
  | timedOut (otp : ℕ)

def after (flights : List Flight) : Happening → List Flight
  | .released f => flights ++ [f]
  | .acknowledged dest seq =>
    flights.filter fun f => ¬ (compareTo f.dest dest = .eq ∧ f.seq = seq)
  | .timedOut otp => flights.filter (·.otp ≠ otp)

/-- The tuples that were released and neither acknowledged nor timed out. -/
def inFlight (history : List Happening) : List Flight := history.foldl after []

def pull (offer : Option (Value × Int64)) (s : CCT) : CCT × Option Flight :=
  if s.currentWindow < s.maxWindow then
    match offer with
    | some (dest, seq) =>
      (({ s with dataOn := true } : CCT).map dest seq, some ⟨dest, seq, s.tuples.length⟩)
    | none => ({ s with dataOn := false, dataCb := true }, none)
  else ({ s with dataCb := true }, none)

/-- `CCT::push`, for an acknowledgement. -/
def push (dest : Value) (seq : Int64) (s : CCT) : CCT := (s.dealloc dest seq).successTransmit

/-- One event, and what happened to tuples. A timer that is not set does not go off. -/
def step (s : CCT) : Event → CCT × List Happening
  | .pull offer => ((s.pull offer).1, ((s.pull offer).2.map Happening.released).toList)
  | .ack dest seq => (s.push dest seq, [.acknowledged dest seq])
  | .dataReady => (s.dataReady, [])
  | .timeout otp =>
    if otp ∈ s.timers then
      (({ s with timers := s.timers.filter (· ≠ otp) } : CCT).timeoutCb otp, [.timedOut otp])
    else (s, [])

/-- One event, with the history of what happened. -/
def stepOn (s : CCT × List Happening) (event : Event) : CCT × List Happening :=
  ((s.1.step event).1, s.2 ++ (s.1.step event).2)

def run (s : CCT × List Happening) (events : List Event) : CCT × List Happening :=
  events.foldl stepOn s

end CCT

end P2.Net
