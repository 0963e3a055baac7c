import TrainKernel.Kernel.Scheduler

/-!
# Events and hardware interrupts

A task that awaits an event stands in the event table until an interrupt takes it
out again. The two flags of UART 1 remember a clear-to-send that came before the
transmitter was ready, and a ready transmitter that came before clear-to-send.
-/

namespace TrainKernel.Kernel

open Function

def uart1OrMask : Word := 1 <<< 20
def uart2RecvMask : Word := 1 <<< 25
def uart2XmitMask : Word := 1 <<< 26
def timer3Mask : Word := 1 <<< 19
def orModemMask : Word := 1
def dctsMask : Word := 1
def ctsnMask : Word := 1 <<< 4
def orRecvMask : Word := 1 <<< 1
def orXmitMask : Word := 1 <<< 2
def rienMask : Word := 0x10
def tienMask : Word := 0x20
def uart1Base : Word := 0x808c0000
def uart2Base : Word := 0x808d0000
def uartDataOffset : Word := 0x0

/-- What the device registers read while one interrupt is handled. -/
structure Hardware where
  vic1Status : Word
  vic2Status : Word
  uart1IntStatus : Word
  uart1ModemStatus : Word
  uart1Data : Byte
  uart2Data : Byte
deriving DecidableEq

/-- The device registers that the kernel writes besides acknowledging interrupts are
the two UART control registers. -/
def setUARTCtrl (k : State) (event : Event) (val : Bool) : State :=
  let put (ctrl mask : Word) : Word := if val then ctrl ||| mask else ctrl &&& ~~~mask
  if event = uart1RecvEvent then { k with uart1Ctlr := put k.uart1Ctlr rienMask }
  else if event = uart1XmitEvent then { k with uart1Ctlr := put k.uart1Ctlr tienMask }
  else if event = uart2RecvEvent then { k with uart2Ctlr := put k.uart2Ctlr rienMask }
  else if event = uart2XmitEvent then { k with uart2Ctlr := put k.uart2Ctlr tienMask }
  else k

def awaitInterrupt (k : State) (active : TaskPtr) (event : Word) : Int × State :=
  if h : event.toNat > 4 then (-1, k)
  else
    let event : Event := ⟨event.toNat, by omega⟩
    let k := if event = timerEvent then k else setUARTCtrl k event true
    (0, { k with eventTable := update k.eventTable event (some active) })

def unblock (k : State) (event : Event) (ret : Word) : State :=
  match k.eventTable event with
  | none => k
  | some td =>
    let k := queueTask (taskSetRet k td ret) td
    { k with eventTable := update k.eventTable event none }

/-- `none` is the endless loop on an interrupt that no branch knows. -/
def handleInterrupt (k : State) (hw : Hardware) : Option State :=
  if hw.vic2Status &&& timer3Mask ≠ 0 then some (unblock k timerEvent 0)
  else if hw.vic2Status &&& uart1OrMask ≠ 0 then
    if hw.uart1IntStatus &&& orModemMask ≠ 0 then
      let cts := hw.uart1ModemStatus &&& ctsnMask ≠ 0
      let dcts := hw.uart1ModemStatus &&& dctsMask ≠ 0
      let k := { k with ctsOn := if cts ∧ dcts then 1 else 0 }
      if k.ctsOn ≠ 0 ∧ k.xmitRdy ≠ 0 then
        some (unblock { k with ctsOn := 0, xmitRdy := 0 } uart1XmitEvent
          (uart1Base + uartDataOffset))
      else some k
    else if hw.uart1IntStatus &&& orXmitMask ≠ 0 then
      let k := setUARTCtrl k uart1XmitEvent false
      if k.ctsOn = 1 then
        some (unblock { k with ctsOn := 0, xmitRdy := 0 } uart1XmitEvent
          (uart1Base + uartDataOffset))
      else some { k with xmitRdy := 1 }
    else if hw.uart1IntStatus &&& orRecvMask ≠ 0 then
      if k.eventTable uart1RecvEvent = none then some k
      else
        some (setUARTCtrl (unblock k uart1RecvEvent (hw.uart1Data.setWidth 32)) uart1RecvEvent
          false)
    else some k
  else if hw.vic1Status &&& uart2RecvMask ≠ 0 then
    if k.eventTable uart2RecvEvent = none then some k
    else
      some (setUARTCtrl (unblock k uart2RecvEvent (hw.uart2Data.setWidth 32)) uart2RecvEvent false)
  else if hw.vic1Status &&& uart2XmitMask ≠ 0 then
    some (unblock (setUARTCtrl k uart2XmitEvent false) uart2XmitEvent (uart2Base + uartDataOffset))
  else if hw.vic1Status &&& 1 ≠ 0 then some k
  else none

end TrainKernel.Kernel
