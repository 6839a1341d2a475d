import Vse.StagedHistory

/-!
# Client sessions

Any number of processes open the control device, send it commands and release it, in any
interleaving. A session is one call of `device_open`; its process may send commands in it
only after the call has returned `SUCCESS`, and releases it once. The staged globals
outlive a session, and the next one finds what its predecessor left. The open count keeps
sessions apart, and the command that starts a rule erases every trace.
-/

namespace Vse.Sessions

open FlowTable Device StagedCommands StagedHistory Runs

universe u

/-- A call of `device_open`: the process that made it and which of its calls it was. The name
tells apart the sessions of one process. -/
structure Session (Client : Type u) where
  client : Client
  serial : Nat
deriving DecidableEq

/-- A call that reaches the device, with the session it belongs to. -/
inductive ClientCall (Client : Type u) where
  | openDevice (session : Session Client)
  | command (session : Session Client) (call : IoctlCall)
  | releaseDevice (session : Session Client)

/-- The device, the sessions ever asked for and those that are open, which is what the processes
may act on. -/
structure World (Client : Type u) where
  device : DeviceState
  started : List (Session Client)
  opened : List (Session Client)

variable {Client : Type u} [DecidableEq Client]

/-- After module load no session was asked for. -/
def loaded : World Client := ⟨moduleLoad, [], []⟩

/-- The effect of a call. A session is open when its `device_open` returned `SUCCESS`. -/
def worldStep (world : World Client) : ClientCall Client → World Client
  | .openDevice session =>
      let (result, device) := deviceOpen world.device
      { device := device
        started := session :: world.started
        opened := if result = success then session :: world.opened else world.opened }
  | .command _ call => { world with device := deviceStep world.device call }
  | .releaseDevice session =>
      { world with
        device := (deviceRelease world.device).2
        opened := world.opened.erase session }

/-- What a process may do: ask for a session that is not yet asked for, and use or release
one of its own that is open. -/
def Legal (world : World Client) : ClientCall Client → Prop
  | .openDevice session => session ∉ world.started
  | .command session _ => session ∈ world.opened
  | .releaseDevice session => session ∈ world.opened

instance (world : World Client) : (event : ClientCall Client) → Decidable (Legal world event)
  | .openDevice session => inferInstanceAs (Decidable (session ∉ world.started))
  | .command session _ => inferInstanceAs (Decidable (session ∈ world.opened))
  | .releaseDevice session => inferInstanceAs (Decidable (session ∈ world.opened))

/-- The commands of a session, out of all that happened, in their order. -/
def ownCalls (session : Session Client) (events : List (ClientCall Client)) : List IoctlCall :=
  events.filterMap fun
    | .command other call => if other = session then some call else none
    | _ => none

/-- What holds between a history and the world it leads to. The last clause is the key to
isolation: since an open session began, nobody else has touched the staged globals. -/
structure Accounted (events : List (ClientCall Client)) (world : World Client) : Prop where
  count : world.device.deviceOpen = world.opened.length
  exclusive : world.opened.length ≤ 1
  known : ∀ session ∈ world.opened, session ∈ world.started
  silent : ∀ session, session ∉ world.started → ownCalls session events = []
  untouched : ∀ session ∈ world.opened, ∃ before, staged world.device =
    run stage before ((ownCalls session events).map IoctlCall.command)

/-- A session that is open is the only one. -/
theorem Accounted.only {events : List (ClientCall Client)} {world : World Client}
    (accounted : Accounted events world) {session other : Session Client}
    (isOpen : session ∈ world.opened) (otherOpen : other ∈ world.opened) : other = session := by
  have single := accounted.exclusive
  match opened : world.opened, single with
  | [], _ =>
    rw [opened] at isOpen
    cases isOpen
  | [first], _ =>
    rw [opened, List.mem_singleton] at isOpen otherOpen
    rw [isOpen, otherOpen]
  | _ :: _ :: _, crowded => simp at crowded

theorem own_calls_concat (session : Session Client) (events : List (ClientCall Client))
    (event : ClientCall Client) : ownCalls session (events ++ [event]) =
      ownCalls session events ++ ownCalls session [event] :=
  List.filterMap_append

/-- A free device is opened by the session, and counts it. -/
theorem world_step_open_free (world : World Client) (session : Session Client)
    (free : world.device.deviceOpen = 0) :
    worldStep world (.openDevice session) =
      ⟨{ world.device with deviceOpen := world.device.deviceOpen + 1 },
        session :: world.started, session :: world.opened⟩ := by
  simp only [worldStep, device_open_free world.device free, ↓reduceIte]

/-- A busy device refuses it, and stays as it is. The session has been asked for all the same. -/
theorem world_step_open_busy (world : World Client) (session : Session Client)
    (busy : world.device.deviceOpen ≠ 0) :
    worldStep world (.openDevice session) =
      ⟨world.device, session :: world.started, world.opened⟩ := by
  simp only [worldStep, device_open_busy world.device busy]
  rfl

/-- Asking for a session keeps the account. A session that opens has sent no commands yet, and the
ones before it are over. -/
theorem accounted_open (events : List (ClientCall Client)) (world : World Client)
    (session : Session Client) (fresh : session ∉ world.started)
    (accounted : Accounted events world) :
    Accounted (events ++ [.openDevice session]) (worldStep world (.openDevice session)) := by
  have same (other : Session Client) :
      ownCalls other (events ++ [.openDevice session]) = ownCalls other events := by
    rw [own_calls_concat]
    exact List.append_nil _
  have silent : ∀ other, other ∉ session :: world.started →
      ownCalls other (events ++ [.openDevice session]) = [] := by
    intro other unknown
    rw [same]
    exact accounted.silent other fun started => unknown (List.mem_cons_of_mem session started)
  by_cases free : world.device.deviceOpen = 0
  · have none : world.opened = [] := by
      have count := accounted.count
      rw [free] at count
      exact List.eq_nil_of_length_eq_zero (by omega)
    rw [world_step_open_free world session free, none]
    refine ⟨?_, le_rfl, ?_, silent, ?_⟩
    · simp only [free, List.length_singleton]
      rfl
    · intro other isOpen
      rw [List.mem_singleton.mp isOpen]
      exact List.mem_cons_self
    · intro other isOpen
      rw [List.mem_singleton.mp isOpen, same, accounted.silent session fresh]
      exact ⟨_, rfl⟩
  · rw [world_step_open_busy world session free]
    refine ⟨accounted.count, accounted.exclusive, ?_, silent, ?_⟩
    · intro other isOpen
      exact List.mem_cons_of_mem session (accounted.known other isOpen)
    · intro other isOpen
      rw [same]
      exact accounted.untouched other isOpen

/-- A command of the open session keeps the account: it is the session's own, and no other session
is open. -/
theorem accounted_command (events : List (ClientCall Client)) (world : World Client)
    (session : Session Client) (call : IoctlCall) (isOpen : session ∈ world.opened)
    (accounted : Accounted events world) :
    Accounted (events ++ [.command session call]) (worldStep world (.command session call)) := by
  have uncounted : (deviceStep world.device call).deviceOpen = world.device.deviceOpen :=
    ioctl_device_open call.cmd call.arg call.kzalloc world.device
  refine ⟨uncounted.trans accounted.count, accounted.exclusive, accounted.known, ?_, ?_⟩
  · intro other unknown
    have different : session ≠ other := by
      rintro rfl
      exact unknown (accounted.known session isOpen)
    rw [own_calls_concat, accounted.silent other unknown]
    simp [ownCalls, different]
  · intro other otherOpen
    obtain rfl := accounted.only isOpen otherOpen
    obtain ⟨before, untouched⟩ := accounted.untouched other otherOpen
    refine ⟨before, ?_⟩
    have own : ownCalls other [.command other call] = [call] := by
      simp [ownCalls]
    change staged (deviceStep world.device call) = _
    rw [step_staged, untouched, own_calls_concat, own, List.map_append, run_append]
    rfl

/-- A release keeps the account: no session is open afterwards, so nothing is claimed of the
staged globals. -/
theorem accounted_release (events : List (ClientCall Client)) (world : World Client)
    (session : Session Client) (isOpen : session ∈ world.opened)
    (accounted : Accounted events world) :
    Accounted (events ++ [.releaseDevice session])
      (worldStep world (.releaseDevice session)) := by
  have same (other : Session Client) :
      ownCalls other (events ++ [.releaseDevice session]) = ownCalls other events := by
    rw [own_calls_concat]
    exact List.append_nil _
  have length := List.length_erase_of_mem isOpen
  have positive := List.length_pos_of_mem isOpen
  refine ⟨?_, ?_, ?_, ?_, ?_⟩
  · have count := accounted.count
    simp only [worldStep, deviceRelease]
    omega
  · have exclusive := accounted.exclusive
    simp only [worldStep]
    omega
  · intro other otherOpen
    exact accounted.known other (List.mem_of_mem_erase otherOpen)
  · intro other unknown
    rw [same]
    exact accounted.silent other unknown
  · intro other otherOpen
    rw [same]
    exact accounted.untouched other (List.mem_of_mem_erase otherOpen)

/-- Every lawful history accounts for the world it leads to. This is the invariant, by induction
on the history. -/
theorem accounted_run (events : List (ClientCall Client))
    (lawful : Along worldStep Legal loaded events) :
    Accounted events (run worldStep loaded events) := by
  induction events using List.reverseRecOn with
  | nil =>
    exact ⟨rfl, Nat.zero_le 1, fun _ isOpen => absurd isOpen (List.not_mem_nil),
      fun _ _ => rfl, fun _ isOpen => absurd isOpen (List.not_mem_nil)⟩
  | append_singleton events event inductionHypothesis =>
    obtain ⟨earlier, last, _⟩ := (along_append worldStep Legal loaded events [event]).mp lawful
    have accounted := inductionHypothesis earlier
    rw [run_append, run_cons, run_nil]
    cases event with
    | openDevice session => exact accounted_open events _ session last accounted
    | command session call => exact accounted_command events _ session call last accounted
    | releaseDevice session => exact accounted_release events _ session last accounted

/-- Sessions are isolated. In every lawful interleaving at most one session is open, and
`Device_Open` counts the open ones. Once a session has started a rule, each of its commands
inserts exactly what it would insert had the session's commands been the only ones since module
load.

Proof: the account says that since an open session began only its own commands have changed the
staged globals. A command that starts a rule erases what was staged before them, so from then on
they alone decide what is staged, and with it what is inserted. -/
theorem session_isolation (events : List (ClientCall Client))
    (lawful : Along worldStep Legal loaded events) :
    (run worldStep loaded events).opened.length ≤ 1 ∧
    (run worldStep loaded events).device.deviceOpen =
      (run worldStep loaded events).opened.length ∧
    ∀ front session call back, events = front ++ .command session call :: back →
      Initialised (ownCalls session front) →
        inserted (run worldStep loaded front).device call =
          inserted (run deviceStep moduleLoad (ownCalls session front)) call := by
  have accounted := accounted_run events lawful
  refine ⟨accounted.exclusive, accounted.count, ?_⟩
  rintro front session call back rfl init
  obtain ⟨earlier, isOpen, _⟩ := (along_append worldStep Legal loaded front _).mp lawful
  obtain ⟨before, untouched⟩ := (accounted_run front earlier).untouched session isOpen
  have alike : staged (run worldStep loaded front).device =
      staged (run deviceStep moduleLoad (ownCalls session front)) := by
    rw [untouched, run_staged, staged_since before _ init, staged_since (staged moduleLoad) _ init]
  rw [inserted_eq, inserted_eq, alike]

/-- A session that starts a rule inserts its own rule, whatever a session before it staged
and left behind. -/
theorem second_session_isolated :
    let first : Session Nat := ⟨0, 0⟩
    let second : Session Nat := ⟨1, 0⟩
    let front : List (ClientCall Nat) := [.openDevice first,
      .command first ⟨Request.setVni.code, wordPtr 5, true⟩, .releaseDevice first,
      .openDevice second, .command second startCall]
    inserted (run worldStep loaded front).device commitCall =
      inserted (run deviceStep moduleLoad [startCall]) commitCall := by
  intro first second front
  have lawful : Along worldStep Legal loaded (front ++ [.command second commitCall]) :=
    ⟨by decide, by decide, by decide, by decide, by decide, by decide, trivial⟩
  exact (session_isolation _ lawful).2.2 front second commitCall [] rfl
    ⟨startCall, List.mem_cons_self, rfl⟩

end Vse.Sessions
