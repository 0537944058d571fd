import Mathlib.Data.List.Basic

/-!
# The options of a channel

`Channel::config`. Its branches are hand-copied from four patterns: an option that may not be
zero is set, any other is set, and one is read, each behind a test for a null pointer. The
classes derived from `Channel` handle options of their own and leave these to it.
-/

namespace Hnw.Base

/-- `SET_RECV_BUFF_SIZE`. -/
def setRecvBuffSize : Int := 0

/-- `GET_RECV_BUFF_SIZE`. -/
def getRecvBuffSize : Int := 1

/-- `SET_SEND_BUFF_SIZE`. -/
def setSendBuffSize : Int := 2

/-- `GET_SEND_BUFF_SIZE`. -/
def getSendBuffSize : Int := 3

/-- `SET_CONNECT_TIME_OUT_MS`. -/
def setConnectTimeOutMs : Int := 16

/-- `GET_CONNECT_TIME_OUT_MS`. -/
def getConnectTimeOutMs : Int := 17

/-- `SET_RECV_TIME_OUT_MS`. -/
def setRecvTimeOutMs : Int := 18

/-- `GET_RECV_TIME_OUT_MS`. -/
def getRecvTimeOutMs : Int := 19

/-- `SET_SEND_TIME_OUT_MS`. -/
def setSendTimeOutMs : Int := 20

/-- `GET_SEND_TIME_OUT_MS`. -/
def getSendTimeOutMs : Int := 21

/-- `default_recv_buff_size`. -/
def defaultRecvBuffSize : Nat := 1024 * 1024

/-- `default_send_buff_size`. -/
def defaultSendBuffSize : Nat := 1024 * 1024

/-- `default_connect_time_out_ms`. -/
def defaultConnectTimeOutMs : Nat := 0

/-- `default_recv_time_out_ms`. -/
def defaultRecvTimeOutMs : Nat := 0

/-- `default_send_time_out_ms`. -/
def defaultSendTimeOutMs : Nat := 0

/-- What `config` returns, of `HNW_BASE_ERR_CODE`. -/
inductive ConfigCode where
  | ok
  | paramsIsInvalid
  | noSupport
deriving DecidableEq, Repr

/-- `Channel`, as far as `config` goes. -/
structure Channel where
  /-- `recv_buff_size_`. -/
  recvBuffSize : Nat := defaultRecvBuffSize
  /-- `send_buff_size_`. -/
  sendBuffSize : Nat := defaultSendBuffSize
  /-- `connect_time_out_ms_`. -/
  connectTimeOutMs : Nat := defaultConnectTimeOutMs
  /-- `recv_time_out_ms_`. -/
  recvTimeOutMs : Nat := defaultRecvTimeOutMs
  /-- `send_time_out_ms_`. -/
  sendTimeOutMs : Nat := defaultSendTimeOutMs
deriving DecidableEq, Repr

/-- What a call of `config` leaves. -/
structure Configured where
  /-- The channel. -/
  channel : Channel
  /-- What `data` points to; `none` is a null pointer. -/
  data : Option Nat
  /-- What it returns. -/
  code : ConfigCode
deriving DecidableEq, Repr

namespace Channel

/-- A branch that stores any value but zero. -/
def storeNonzero (channel : Channel) (data : Option Nat) (store : Nat → Channel) : Configured :=
  match data with
  | some value =>
    if value = 0 then ⟨channel, data, .paramsIsInvalid⟩ else ⟨store value, data, .ok⟩
  | none => ⟨channel, data, .paramsIsInvalid⟩

/-- A branch that stores any value. -/
def storeAny (channel : Channel) (data : Option Nat) (store : Nat → Channel) : Configured :=
  match data with
  | some value => ⟨store value, data, .ok⟩
  | none => ⟨channel, data, .paramsIsInvalid⟩

/-- A branch that hands a field out. -/
def handOut (channel : Channel) (data : Option Nat) (field : Nat) : Configured :=
  match data with
  | some _ => ⟨channel, some field, .ok⟩
  | none => ⟨channel, data, .paramsIsInvalid⟩

/-- `config`. The size of `data` is not looked at. -/
def config (channel : Channel) (configType : Int) (data : Option Nat) : Configured :=
  if configType = setRecvBuffSize then
    storeNonzero channel data fun value => { channel with recvBuffSize := value }
  else if configType = getRecvBuffSize then
    -- The source reads the other buffer's size here.
    handOut channel data channel.sendBuffSize
  else if configType = setSendBuffSize then
    storeNonzero channel data fun value => { channel with sendBuffSize := value }
  else if configType = getSendBuffSize then
    handOut channel data channel.sendBuffSize
  else if configType = setConnectTimeOutMs then
    storeAny channel data fun value => { channel with connectTimeOutMs := value }
  else if configType = getConnectTimeOutMs then
    handOut channel data channel.connectTimeOutMs
  else if configType = setRecvTimeOutMs then
    storeAny channel data fun value => { channel with recvTimeOutMs := value }
  else if configType = getRecvTimeOutMs then
    handOut channel data channel.recvTimeOutMs
  else if configType = setSendTimeOutMs then
    storeAny channel data fun value => { channel with sendTimeOutMs := value }
  else if configType = getSendTimeOutMs then
    handOut channel data channel.sendTimeOutMs
  else ⟨channel, data, .noSupport⟩

/-- `init_accept`: the channel of an accepted client, and whether there is a server. -/
def initAccept (client : Channel) (server : Option Channel) : Channel × Bool :=
  match server with
  | some server =>
    let recv := server.config getRecvBuffSize (some client.recvBuffSize)
    let send := recv.channel.config getSendBuffSize (some client.sendBuffSize)
    ({ client with
        recvBuffSize := recv.data.getD client.recvBuffSize
        sendBuffSize := send.data.getD client.sendBuffSize }, true)
  | none => (client, false)

end Channel

end Hnw.Base
