import Hnw.Base.Channel
import Hnw.Theory.LastWrite

/-!
# Reading back what was set

Each option has a branch of `config` that sets it and one that reads it. Setting is right for all
five: a field holds the last value that was set and accepted. Reading is right for four. The
receive buffer's size is read from the field of the send buffer's, so it is right exactly where
the two were left at one value, and an accepted client inherits the confusion.
-/

namespace Hnw.Base

open Hnw.Theory

/-- The options that are set and read. -/
inductive ChannelOption where
  | recvBuffSize
  | sendBuffSize
  | connectTimeOutMs
  | recvTimeOutMs
  | sendTimeOutMs
deriving DecidableEq, Repr

namespace ChannelOption

/-- The `config_type` that sets an option. -/
def setType : ChannelOption → Int
  | recvBuffSize => setRecvBuffSize
  | sendBuffSize => setSendBuffSize
  | connectTimeOutMs => setConnectTimeOutMs
  | recvTimeOutMs => setRecvTimeOutMs
  | sendTimeOutMs => setSendTimeOutMs

/-- The `config_type` that reads an option. -/
def getType : ChannelOption → Int
  | recvBuffSize => getRecvBuffSize
  | sendBuffSize => getSendBuffSize
  | connectTimeOutMs => getConnectTimeOutMs
  | recvTimeOutMs => getRecvTimeOutMs
  | sendTimeOutMs => getSendTimeOutMs

/-- The value of a new channel. -/
def default : ChannelOption → Nat
  | recvBuffSize => defaultRecvBuffSize
  | sendBuffSize => defaultSendBuffSize
  | connectTimeOutMs => defaultConnectTimeOutMs
  | recvTimeOutMs => defaultRecvTimeOutMs
  | sendTimeOutMs => defaultSendTimeOutMs

/-- The field of an option. -/
def field : ChannelOption → Channel → Nat
  | recvBuffSize, channel => channel.recvBuffSize
  | sendBuffSize, channel => channel.sendBuffSize
  | connectTimeOutMs, channel => channel.connectTimeOutMs
  | recvTimeOutMs, channel => channel.recvTimeOutMs
  | sendTimeOutMs, channel => channel.sendTimeOutMs

/-- A channel with another value of an option. -/
def store : ChannelOption → Channel → Nat → Channel
  | recvBuffSize, channel, value => { channel with recvBuffSize := value }
  | sendBuffSize, channel, value => { channel with sendBuffSize := value }
  | connectTimeOutMs, channel, value => { channel with connectTimeOutMs := value }
  | recvTimeOutMs, channel, value => { channel with recvTimeOutMs := value }
  | sendTimeOutMs, channel, value => { channel with sendTimeOutMs := value }

/-- The options that may not be zero. -/
def nonzero : ChannelOption → Bool
  | recvBuffSize | sendBuffSize => true
  | connectTimeOutMs | recvTimeOutMs | sendTimeOutMs => false

/-- The value `config` sets an option to, where it accepts the data. -/
def accepts (option : ChannelOption) : Option Nat → Option Nat
  | some value => if option.nonzero ∧ value = 0 then none else some value
  | none => none

@[simp] theorem field_store_same (option : ChannelOption) (channel : Channel) (value : Nat) :
    option.field (option.store channel value) = value := by
  cases option <;> rfl

/-- Setting one option leaves the others. -/
theorem field_store_other {option other : ChannelOption} (different : other ≠ option)
    (channel : Channel) (value : Nat) :
    option.field (other.store channel value) = option.field channel := by
  cases option <;> cases other <;> first | rfl | exact absurd rfl different

@[simp] theorem field_new (option : ChannelOption) : option.field {} = option.default := by
  cases option <;> rfl

/-- Options are set under types of their own. -/
theorem setType_inj {option other : ChannelOption} (same : option.setType = other.setType) :
    option = other := by
  revert same
  cases option <;> cases other <;> decide

end ChannelOption

open ChannelOption

/-! ## One call -/

/-- The branch that sets an option. -/
theorem config_set (option : ChannelOption) (channel : Channel) (data : Option Nat) :
    channel.config option.setType data =
      ((option.accepts data).elim ⟨channel, data, .paramsIsInvalid⟩
        fun value => ⟨option.store channel value, data, .ok⟩) := by
  cases data with
  | none => cases option <;> rfl
  | some value =>
    cases option with
    | recvBuffSize | sendBuffSize =>
      by_cases zero : value = 0
      · subst zero
        rfl
      · simp [Channel.config, Channel.storeNonzero, accepts, nonzero, setType, store, zero,
          setRecvBuffSize, getRecvBuffSize, setSendBuffSize]
    | connectTimeOutMs | recvTimeOutMs | sendTimeOutMs => rfl

/-- A call that sets nothing leaves the channel, and is not a SET that was accepted. -/
theorem config_unset {configType : Int} (unset : ∀ option : ChannelOption,
    configType ≠ option.setType) (channel : Channel) (data : Option Nat) :
    (channel.config configType data).channel = channel := by
  have handsOut : ∀ field, (Channel.handOut channel data field).channel = channel := by
    intro field
    cases data <;> rfl
  have recvBuff : configType ≠ setRecvBuffSize := unset .recvBuffSize
  have sendBuff : configType ≠ setSendBuffSize := unset .sendBuffSize
  have connectTime : configType ≠ setConnectTimeOutMs := unset .connectTimeOutMs
  have recvTime : configType ≠ setRecvTimeOutMs := unset .recvTimeOutMs
  have sendTime : configType ≠ setSendTimeOutMs := unset .sendTimeOutMs
  rw [Channel.config, if_neg recvBuff, if_neg sendBuff, if_neg connectTime, if_neg recvTime,
    if_neg sendTime]
  repeat' split
  all_goals first | exact handsOut _ | rfl

/-- The branch that reads an option, of all but the receive buffer's size. -/
theorem config_get {option : ChannelOption} (right : option ≠ .recvBuffSize)
    (channel : Channel) (held : Nat) :
    channel.config option.getType (some held) = ⟨channel, some (option.field channel), .ok⟩ := by
  cases option with
  | recvBuffSize => exact absurd rfl right
  | sendBuffSize | connectTimeOutMs | recvTimeOutMs | sendTimeOutMs => rfl

/-- The receive buffer's size is read from the send buffer's field. -/
theorem config_get_recvBuffSize (channel : Channel) (held : Nat) :
    channel.config getRecvBuffSize (some held) = ⟨channel, some channel.sendBuffSize, .ok⟩ := rfl

/-! ## A history of calls -/

/-- A call of `config`. -/
structure ConfigCall where
  /-- `config_type`. -/
  configType : Int
  /-- What `data` points to; `none` is a null pointer. -/
  data : Option Nat
deriving DecidableEq, Repr

/-- What a call leaves of a channel. -/
def ConfigCall.apply (channel : Channel) (call : ConfigCall) : Configured :=
  channel.config call.configType call.data

/-- A new channel after a history of calls. -/
def afterCalls (calls : List ConfigCall) : Channel :=
  calls.foldl (fun channel call => (call.apply channel).channel) {}

/-- The calls of a history with what each returned. -/
def outcomes : Channel → List ConfigCall → List (ConfigCall × ConfigCode)
  | _, [] => []
  | channel, call :: calls =>
    (call, (call.apply channel).code) :: outcomes (call.apply channel).channel calls

/-- The value a call that returned gave an option, where it was a SET of it that returned OK. -/
def acceptedBy (option : ChannelOption) (outcome : ConfigCall × ConfigCode) : Option Nat :=
  if outcome.1.configType = option.setType ∧ outcome.2 = .ok then outcome.1.data else none

/-- The value of the last SET of an option that returned OK, or the default. -/
def lastAccepted (option : ChannelOption) (calls : List ConfigCall) : Nat :=
  (lastWrite (acceptedBy option) (outcomes {} calls)).getD option.default

/-- The value a call gives an option, by its arguments alone. -/
def givenBy (option : ChannelOption) (call : ConfigCall) : Option Nat :=
  if call.configType = option.setType then option.accepts call.data else none

/-- The value last given to an option, or the default. -/
def lastGiven (option : ChannelOption) (calls : List ConfigCall) : Nat :=
  (lastWrite (givenBy option) calls).getD option.default

/-- A SET returns OK where its data are accepted. -/
theorem acceptedBy_apply (option : ChannelOption) (channel : Channel) (call : ConfigCall) :
    acceptedBy option (call, (call.apply channel).code) = givenBy option call := by
  by_cases same : call.configType = option.setType
  · rw [acceptedBy, givenBy, if_pos same, ConfigCall.apply, same, config_set]
    cases data : call.data with
    | none => exact if_neg fun both => nomatch both.2
    | some value =>
      by_cases zero : option.nonzero ∧ value = 0
      · rw [accepts, if_pos zero]
        exact if_neg fun both => nomatch both.2
      · rw [accepts, if_neg zero]
        exact if_pos ⟨rfl, rfl⟩
  · rw [acceptedBy, givenBy, if_neg same, if_neg fun both => same both.1]

/-- What was accepted is what was given, whatever the channel was. -/
theorem lastWrite_outcomes (option : ChannelOption) (channel : Channel)
    (calls : List ConfigCall) :
    lastWrite (acceptedBy option) (outcomes channel calls) = lastWrite (givenBy option) calls := by
  induction calls generalizing channel with
  | nil => rfl
  | cons call calls ih => rw [outcomes, lastWrite_cons, lastWrite_cons, ih, acceptedBy_apply]

/-- The last accepted value is the one last given. -/
theorem lastAccepted_eq (option : ChannelOption) (calls : List ConfigCall) :
    lastAccepted option calls = lastGiven option calls := by
  rw [lastAccepted, lastGiven, lastWrite_outcomes]

/-- A call writes an option's field where it gives it a value, and keeps it elsewhere. -/
theorem field_apply (option : ChannelOption) (channel : Channel) (call : ConfigCall) :
    option.field (call.apply channel).channel =
      (givenBy option call).getD (option.field channel) := by
  by_cases sets : ∃ other : ChannelOption, call.configType = other.setType
  · obtain ⟨other, type⟩ := sets
    rw [ConfigCall.apply, type, config_set, givenBy, type]
    by_cases same : other = option
    · subst same
      rw [if_pos rfl]
      cases other.accepts call.data <;> simp
    · rw [if_neg fun types => same (setType_inj types)]
      cases other.accepts call.data with
      | none => rfl
      | some value => exact field_store_other same channel value
  · have unset : ∀ other : ChannelOption, call.configType ≠ other.setType :=
      fun other type => sets ⟨other, type⟩
    rw [ConfigCall.apply, config_unset unset, givenBy, if_neg (unset option)]
    rfl

/-- After a history every field holds the value last accepted. -/
theorem field_afterCalls (option : ChannelOption) (calls : List ConfigCall) :
    option.field (afterCalls calls) = lastAccepted option calls := by
  have held := foldl_lastWrite (field_apply option) {} calls
  rw [field_new] at held
  rw [lastAccepted_eq]
  exact held

/-! ## Reading -/

/-- After a history, GET hands out the value last accepted, and changes nothing. -/
def ReadsBack (option : ChannelOption) (calls : List ConfigCall) : Prop :=
  ∀ held : Nat, (afterCalls calls).config option.getType (some held) =
    ⟨afterCalls calls, some (lastAccepted option calls), .ok⟩

/-- A channel keeps its options: each reads back what was accepted, and an accepted client gets
the buffer sizes of the server. -/
structure KeepsOptions (calls : List ConfigCall) : Prop where
  /-- Every option reads back the value last accepted. -/
  readsBack : ∀ option, ReadsBack option calls
  /-- The receive buffer's size reaches an accepted client. -/
  recvInherited : ∀ client : Channel,
    (client.initAccept (some (afterCalls calls))).1.recvBuffSize = lastAccepted .recvBuffSize calls
  /-- The send buffer's size reaches an accepted client. -/
  sendInherited : ∀ client : Channel,
    (client.initAccept (some (afterCalls calls))).1.sendBuffSize = lastAccepted .sendBuffSize calls

/-- All options but the receive buffer's size read back after every history. -/
theorem readsBack_other {option : ChannelOption} (right : option ≠ .recvBuffSize)
    (calls : List ConfigCall) : ReadsBack option calls := by
  intro held
  rw [config_get right, field_afterCalls]

/-- The receive buffer's size reads back where the two sizes were left at one value. -/
theorem readsBack_recvBuffSize (calls : List ConfigCall) :
    ReadsBack .recvBuffSize calls ↔
      lastGiven .recvBuffSize calls = lastGiven .sendBuffSize calls := by
  have send : (afterCalls calls).sendBuffSize = lastAccepted .sendBuffSize calls :=
    field_afterCalls .sendBuffSize calls
  have reads : ∀ held : Nat, (afterCalls calls).config (getType .recvBuffSize) (some held) =
      ⟨afterCalls calls, some (lastAccepted .sendBuffSize calls), .ok⟩ := by
    intro held
    rw [← send]
    exact config_get_recvBuffSize _ held
  rw [← lastAccepted_eq, ← lastAccepted_eq]
  constructor
  · intro readsBack
    have same := (readsBack 0).symm.trans (reads 0)
    simpa using same
  · intro same held
    rw [reads, same]

/-- A channel keeps its options after a history exactly where the value last given to the receive
buffer's size is the one last given to the send buffer's; all other options always read back. -/
theorem config_keeps_options (calls : List ConfigCall) :
    (KeepsOptions calls ↔ lastGiven .recvBuffSize calls = lastGiven .sendBuffSize calls) ∧
      ∀ option, option ≠ ChannelOption.recvBuffSize → ReadsBack option calls := by
  refine ⟨⟨fun keeps => (readsBack_recvBuffSize calls).mp (keeps.readsBack .recvBuffSize),
    fun same => ⟨fun option => ?_, fun client => ?_, fun client => ?_⟩⟩,
    fun option right => readsBack_other right calls⟩
  · by_cases recv : option = .recvBuffSize
    · rw [recv]
      exact (readsBack_recvBuffSize calls).mpr same
    · exact readsBack_other recv calls
  · rw [lastAccepted_eq, same, ← lastAccepted_eq, ← field_afterCalls]
    rfl
  · rw [← field_afterCalls]
    rfl

/-- After `SET_RECV_BUFF_SIZE` with 4096, `GET_RECV_BUFF_SIZE` still hands out the default of the
send buffer's size. -/
theorem recvBuffSize_crossed :
    ¬ ∀ calls : List ConfigCall, KeepsOptions calls := by
  intro claim
  have readsBack := (claim [⟨setRecvBuffSize, some 4096⟩]).readsBack .recvBuffSize 0
  exact absurd (congrArg Configured.data readsBack) (by decide)

end Hnw.Base
