import FsccDriver.ClockBits
import FsccDriver.Isr
import FsccDriver.Purge
import FsccDriver.Requests
import FsccDriver.RxPort

/-!
# RequestHandlers — the callbacks and workers that deal with requests

Each handler is a program of framework calls.  Nothing makes the handlers wait for each other: `others`
is what the other ones have made of the port by the time a handler looks at it again.  Without `others`
a handler runs alone; where the calls do not depend on the port there is only the one version.
-/

namespace FsccDriver.Handlers

open Words
open Calls (Program)

variable {H : Type}

/-! ## The port -/

structure Driver (H : Type) where
  tx : TxSide
  rx : RxPort
  rxPhysicalAddress : Nat → BitVec 32
  txSize : Nat
  blockingWrite : Bool
  waitOnWrite : Bool
  lastIsrValue : BitVec 32
  card : H

namespace Driver

def registers (d : Driver H) : RegPort := d.tx.toRegPort

def setRegisters (d : Driver H) (registers : RegPort) : Driver H :=
  { d with tx := { d.tx with toRegPort := registers } }

def rxSide (d : Driver H) : RxSide := ⟨d.registers, d.rx, d.rxPhysicalAddress⟩

def setRxSide (d : Driver H) (side : RxSide) : Driver H :=
  { d.setRegisters side.toRegPort with rx := side.rx }

end Driver

def fsccIoIsStreaming (port : RegPort) : Bool :=
  let ccr0 := port.registerStorage.get 7
  let ccr2 := port.registerStorage.get 9
  let transparentMode : Bool := ccr0 &&& 0x3 = 0x2
  let xsyncMode : Bool := ccr0 &&& 0x3 = 0x1
  let rlcMode : Bool := ccr2 &&& 0xffff0000 ≠ 0
  let fscMode : Bool := ccr0 &&& 0x700 ≠ 0
  let ntb : Bool := ccr0 &&& 0x70000 ≠ 0
  (transparentMode || xsyncMode) && !(rlcMode || fscMode || ntb)

/-! ## Reads -/

def fsccEvtIoRead (request : Request) : Handler Unit := do
  -- The user is requesting 0 bytes so return immediately
  if request.length = 0 then wdfRequestCompleteWithInformation request .success request.length
  else
    let status ← wdfRequestForwardToIoQueue request .readQueue2
    if status ≠ .success then wdfRequestComplete request status

def Driver.read (hw : Hardware H) (streaming : Bool) (length : Nat) (d : Driver H) :
    ReadResult × Driver H :=
  if streaming then
    let (result, rx) := fsccUserReadStream length d.rx
    (result, { d with rx })
  else
    let (result, rx, card) := fsccUserReadFrame hw length d.rx d.card
    (result, { d with rx, card })

def fsccProcessReadAmong (hw : Hardware H) (others : Nat → Driver H → Driver H) (d : Driver H) :
    Handler (Driver H) := do
  let streaming := fsccIoIsStreaming d.registers
  let (frameReady, bytesReady) := fsccUserNextReadSize d.rx
  if bytesReady = 0 then pure d
  else if !streaming && !frameReady then pure d
  else
    match ← wdfIoQueueRetrieveNextRequest .readQueue2 with
    | .error _ => pure d
    | .ok request =>
        let length ← wdfRequestGetParameters request
        let status ← wdfRequestRetrieveOutputBuffer request (u32 length)
        if status ≠ .success then
          wdfRequestComplete request status
          pure d
        else
          let (result, d) := (others 0 d).read hw streaming (u32 length)
          let _ ← accessBuffer request
          if result.status ≠ .success then
            wdfRequestComplete request result.status
            pure d
          else
            wdfRequestCompleteWithInformation request result.status result.outLength
            pure d

def fsccProcessRead (hw : Hardware H) (d : Driver H) : Handler (Driver H) :=
  fsccProcessReadAmong hw (fun _ d ↦ d) d

/-! ## Writes -/

def Driver.write (hw : Hardware H) (data : List Byte) (length : Nat) (d : Driver H) :
    WriteResult × Driver H :=
  let (result, port, card) := fsccUserWriteFrame hw data length d.tx.toTxPort d.card
  (result, { d with tx := { d.tx with toTxPort := port }, card })

-- The check for a clock in front of a write.
def Driver.clockMissing (hw : Hardware H) (d : Driver H) : Bool × Driver H :=
  if d.tx.ignoreTimeout = false then
    let (timedOut, card) := fsccPortTimedOut hw d.registers d.card
    (timedOut, { d with card })
  else (false, d)

def fsccEvtIoWriteAmong (hw : Hardware H) (others : Nat → Driver H → Driver H) (d : Driver H)
    (request : Request) : Handler (Driver H) := do
  if request.length = 0 then
    wdfRequestCompleteWithInformation request .success request.length
    pure d
  else if request.length > u32 ((d.txSize : Int) * d.tx.txNum) then
    wdfRequestComplete request .bufferTooSmall
    pure d
  else if d.blockingWrite then
    let status ← wdfRequestForwardToIoQueue request .blockingRequestQueue
    if status ≠ .success then
      wdfRequestComplete request status
      pure d
    else pure d
  else if fsccUserGetTxSpace d.tx.toTxPort < request.length then
    wdfRequestComplete request .bufferTooSmall
    pure d
  else
    let (timedOut, d) := d.clockMissing hw
    if timedOut then
      wdfRequestComplete request .ioTimeout
      pure d
    else
      let status ← wdfRequestRetrieveInputBuffer request request.length
      if status ≠ .success then
        wdfRequestComplete request status
        pure d
      else
        let data ← accessBuffer request
        let (result, d) := (others 0 d).write hw data (u32 request.length)
        let d := others 1 d
        if d.waitOnWrite then
          let status ← wdfRequestForwardToIoQueue request .writeQueue2
          if status ≠ .success then
            wdfRequestComplete request status
            pure d
          else pure d
        else
          wdfRequestCompleteWithInformation request result.status result.outLength
          pure d

def fsccEvtIoWrite (hw : Hardware H) (d : Driver H) (request : Request) : Handler (Driver H) :=
  fsccEvtIoWriteAmong hw (fun _ d ↦ d) d request

-- The loop of `alls_worker`, which ends when the queue has nothing more to give.
def allsLoop : Nat → Handler Unit
  | 0 => .unfinished
  | rounds + 1 => do
      match ← wdfIoQueueRetrieveNextRequest .writeQueue2 with
      | .error _ => pure ()
      | .ok request =>
          let length ← wdfRequestGetParameters request
          wdfRequestCompleteWithInformation request .success (u32 length)
          allsLoop rounds

def allsWorker (rounds : Nat) (d : Driver H) : Handler Unit :=
  if d.waitOnWrite then allsLoop rounds else pure ()

def requestWorkerAmong (hw : Hardware H) (others : Nat → Driver H → Driver H) (d : Driver H) :
    Handler (Driver H) := do
  match ← wdfIoQueueFindRequest .blockingRequestQueue none with
  | .error _ => pure d
  | .ok tagRequest =>
      let length := u32 tagRequest.length
      let d := others 0 d
      if fsccUserGetTxSpace d.tx.toTxPort < length then pure d
      else
        let status ← wdfIoQueueRetrieveFoundRequest .blockingRequestQueue tagRequest
        wdfObjectDereference tagRequest
        if status ≠ .success then pure d
        else
          let status ← wdfRequestRetrieveInputBuffer tagRequest length
          if status ≠ .success then
            wdfRequestComplete tagRequest status
            pure d
          else
            let data ← accessBuffer tagRequest
            let (result, d) := (others 1 d).write hw data length
            wdfRequestCompleteWithInformation tagRequest result.status result.outLength
            pure d

def requestWorker (hw : Hardware H) (d : Driver H) : Handler (Driver H) :=
  requestWorkerAmong hw (fun _ d ↦ d) d

/-! ## The listeners -/

def Driver.dereferencePrev : Option Request → Handler Unit
  | some prevTagRequest => wdfObjectDereference prevTagRequest
  | none => pure ()

/-- The loop of `isr_alert_worker`; `prevTagRequest` still has its reference. -/
def alertLoop (isrValue : BitVec 32) : Nat → (prevTagRequest : Option Request) → Handler Unit
  | 0, _ => .unfinished
  | rounds + 1, prevTagRequest => do
      let found ← wdfIoQueueFindRequest .isrQueue prevTagRequest
      Driver.dereferencePrev prevTagRequest
      match found with
      | .error status =>
          if status = .noMoreEntries then pure ()
          -- It has disappeared from the queue, so the search starts again.
          else if status = .notFound then alertLoop isrValue rounds none
          else pure ()
      | .ok tagRequest =>
          let status ← wdfRequestRetrieveInputBuffer tagRequest 4
          if status ≠ .success then wdfObjectDereference tagRequest
          else
            let status ← wdfRequestRetrieveOutputBuffer tagRequest 4
            if status ≠ .success then wdfObjectDereference tagRequest
            else
              let mask ← accessBuffer tagRequest
              if isrValue &&& Bytes.wordAt mask 0 ≠ 0 then
                let status ← wdfIoQueueRetrieveFoundRequest .isrQueue tagRequest
                wdfObjectDereference tagRequest
                if status = .notFound then alertLoop isrValue rounds none
                else if status ≠ .success then pure ()
                else
                  let _ ← accessBuffer tagRequest
                  wdfRequestCompleteWithInformation tagRequest .success 4
                  alertLoop isrValue rounds none
              else alertLoop isrValue rounds (some tagRequest)

def isrAlertWorker (rounds : Nat) (d : Driver H) : Handler (Driver H) := do
  alertLoop d.lastIsrValue rounds none
  pure { d with lastIsrValue := 0 }

/-! ## Device control -/

inductive PortOption where
  | appendStatus
  | appendTimestamp
  | rxMultiple
  | ignoreTimeout
  | waitOnWrite
  | blockingWrite
  | forceFifo
  deriving DecidableEq

inductive IoControlCode where
  | getRegisters
  | setRegisters
  | purgeTx
  | purgeRx
  | enable (option : PortOption)
  | disable (option : PortOption)
  | get (option : PortOption)
  | setClockBits
  | setTxModifiers
  | getTxModifiers
  | trackInterrupts
  | unknown
  deriving DecidableEq

def fsccPortSetForceFifo (hw : Hardware H) (port : RegPort) (value : Bool) (h : H) :
    NtStatus × RegPort × H :=
  if !value && !port.hasDma then (.notSupported, port, h)
  -- Only if it is changing, and if it can even do DMA.
  else if port.forceFifo ≠ value ∧ port.hasDma then
    let port := { port with forceFifo := value }
    let command : BitVec 32 := if value then 0x00000000 else 0x03000000
    let (_, port, h) := fsccPortSetRegister hw port 2 dmaccrOffset command h
    (.success, port, h)
  else (.success, port, h)

def Driver.setOption (hw : Hardware H) (d : Driver H) (value : Bool) :
    PortOption → NtStatus × Driver H
  | .appendStatus => (.success, { d with rx := { d.rx with appendStatus := value } })
  | .appendTimestamp => (.success, { d with rx := { d.rx with appendTimestamp := value } })
  | .rxMultiple => (.success, { d with rx := { d.rx with rxMultiple := value } })
  | .ignoreTimeout => (.success, d.setRegisters { d.registers with ignoreTimeout := value })
  | .waitOnWrite => (.success, { d with waitOnWrite := value })
  | .blockingWrite => (.success, { d with blockingWrite := value })
  | .forceFifo =>
      let (status, registers, card) := fsccPortSetForceFifo hw d.registers value d.card
      (status, { d.setRegisters registers with card })

-- XF and XREP, each alone or with one of TXT and TXEXT.
def validTxModifiers : List (BitVec 32) := [0, 2, 4, 1, 3, 5]

def fsccPortSetTxModifiers (d : Driver H) (value : BitVec 32) : NtStatus × Driver H :=
  if value ∈ validTxModifiers then
    (.success, { d with tx := { d.tx with txModifiers := value.toNat } })
  else (.failed, d)

-- `struct fscc_registers` as it lies in a buffer.
def registersAt (buffer : List Byte) : FsccRegisters where
  fields := (List.range 30).map fun i ↦
    Bytes.wordAt buffer (8 * i + 4) ++ Bytes.wordAt buffer (8 * i)
  length_fields := by rw [List.length_map, List.length_range]

-- The queues it purges are those that hold requests which were delivered.
def fsccIoPurgeTx (hw : Hardware H) (d : Driver H) : Handler (NtStatus × Driver H) := do
  let (status, tx, card) := FsccDriver.fsccIoPurgeTx hw d.tx d.card
  wdfIoQueuePurgeSynchronously .writeQueue2
  pure (status, { d with tx, card })

def fsccIoPurgeRx (hw : Hardware H) (d : Driver H) : Handler (NtStatus × Driver H) := do
  let origCcr0 : BitVec 32 := d.registers.storedCcr0.setWidth 32
  let (side, card) := purgeRxReset hw d.rxSide d.card
  wdfIoQueuePurgeSynchronously .readQueue2
  -- disable RECD
  let (_, registers, card) := fsccPortSetRegister hw side.toRegPort 0 ccr0Offset origCcr0 card
  pure (.success, { (d.setRxSide side).setRegisters registers with card })

/-- A case of `FsccEvtIoDeviceControl`: the status, `bytes_returned` and the port. -/
abbrev ControlResult (H : Type) := NtStatus × Nat × Driver H

-- The cases that begin with `WdfRequestRetrieveInputBuffer` or its counterpart for the output.
def withInput (request : Request) (length : Nat) (d : Driver H)
    (body : Handler (ControlResult H)) : Handler (ControlResult H) := do
  let status ← wdfRequestRetrieveInputBuffer request length
  if status ≠ .success then pure (status, 0, d) else body

def withOutput (request : Request) (length : Nat) (d : Driver H)
    (body : Handler (ControlResult H)) : Handler (ControlResult H) := do
  let status ← wdfRequestRetrieveOutputBuffer request length
  if status ≠ .success then pure (status, 0, d) else body

def ioControl (hw : Hardware H) (d : Driver H) (request : Request) :
    IoControlCode → Handler (ControlResult H)
  | .getRegisters =>
      withInput request 240 d <| withOutput request 240 d do
        let buffer ← accessBuffer request
        -- The values go to the caller.
        let card := (fsccPortGetRegisters hw (registersAt buffer) d.registers.channel d.card).2
        pure (.success, 240, { d with card })
  | .setRegisters =>
      withInput request 240 d do
        let buffer ← accessBuffer request
        let (status, registers, card) :=
          fsccPortSetRegisters hw (registersAt buffer) d.registers d.card
        pure (status, 0, { d.setRegisters registers with card })
  | .purgeTx => do
      let (status, d) ← fsccIoPurgeTx hw d
      pure (status, 0, d)
  | .purgeRx => do
      let (status, d) ← fsccIoPurgeRx hw d
      pure (status, 0, d)
  | .enable option =>
      let (status, d) := d.setOption hw true option
      pure (status, 0, d)
  | .disable option =>
      let (status, d) := d.setOption hw false option
      pure (status, 0, d)
  | .get _ =>
      withOutput request 1 d do
        let _ ← accessBuffer request
        pure (.success, 1, d)
  | .setClockBits =>
      withInput request 24 d do
        let buffer ← accessBuffer request
        let allocated ← exAllocatePool
        let card := fsccPortSetClockBits hw allocated d.registers.channel ((buffer.drop 4).take 20)
          d.card
        pure (.success, 0, { d with card })
  | .setTxModifiers =>
      withInput request 4 d do
        let buffer ← accessBuffer request
        let (status, d) := fsccPortSetTxModifiers d (Bytes.wordAt buffer 0)
        pure (status, 0, d)
  | .getTxModifiers =>
      withOutput request 4 d do
        let _ ← accessBuffer request
        pure (.success, 4, d)
  | .trackInterrupts | .unknown => pure (.notSupported, 0, d)

def fsccEvtIoDeviceControl (hw : Hardware H) (d : Driver H) (request : Request)
    (ioControlCode : IoControlCode) : Handler (Driver H) := do
  if ioControlCode = .trackInterrupts then
    let status ← wdfRequestForwardToIoQueue request .isrQueue
    if status ≠ .success then
      wdfRequestComplete request status
      pure d
    else pure d
  else
    let (status, bytesReturned, d) ← ioControl hw d request ioControlCode
    wdfRequestCompleteWithInformation request status bytesReturned
    pure d

end FsccDriver.Handlers
