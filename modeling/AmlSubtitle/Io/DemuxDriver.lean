import AmlSubtitle.Lib.Run

/-!
# `io/DemuxDriver.c`: the table of demux filters

Each demux device has `DEMUX_FILTER_COUNT` filters.  The calls of the driver allocate,
set, start, stop and free them under the device's lock, so that they follow one another.

* The hardware driver is that of `Demux.c`.  What the system answers during a call is a
  `Sys`: the allocation, the thread, the file descriptor and the `ioctl`s.
* A filter that a call looks for and does not find is a null pointer.  Reading through it is
  the outcome `segfault`, after which the process is gone.
* The names of the devices and the fields that only the data thread and `dvb_poll` use are
  left out.
-/

namespace AmlSubtitle
namespace DemuxDriver

/-! ## Codes -/

def AM_SUCCESS : ℤ := 0

/-- `ERROR_BASE(AM_MOD_DMX)`. -/
def DEMUX_ERROR_BASE : ℤ := 2 ^ 24

def DEMUX_ERROR_INVALID_DEV_NO : ℤ := DEMUX_ERROR_BASE + 1

def DEMUX_ERROR_INVALID_ID : ℤ := DEMUX_ERROR_BASE + 2

def DEMUX_ERROR_NOT_ALLOCATED : ℤ := DEMUX_ERROR_BASE + 4

def DEMUX_ERROR_CANNOT_CREATE_THREAD : ℤ := DEMUX_ERROR_BASE + 5

def DEMUX_ERROR_CANNOT_OPEN_DEV : ℤ := DEMUX_ERROR_BASE + 6

def DEMUX_ERROR_NO_FREE_FILTER : ℤ := DEMUX_ERROR_BASE + 8

def DEMUX_ERROR_NO_MEM : ℤ := DEMUX_ERROR_BASE + 9

def DEMUX_ERROR_SYS : ℤ := DEMUX_ERROR_BASE + 11

/-! ## The table -/

def DEMUX_FILTER_COUNT : ℕ := 32

def DMX_DEV_COUNT : ℕ := 16

/-- `DemuxFilter`; `drvData` is the file descriptor. -/
structure Filter where
  drvData : ℤ
  used : Bool
  enable : Bool
  id : ℕ
  cb : Option ℕ
  userData : ℕ
  deriving DecidableEq, Repr

/-- `DemuxDevice`. -/
structure Device where
  filters : Fin DEMUX_FILTER_COUNT → Filter
  openCount : ℕ

/-- `dmx_devices`. -/
abbrev Devices := Fin DMX_DEV_COUNT → Device

/-- A filter, or a device, in static memory. -/
def Filter.zero : Filter := ⟨0, false, false, 0, none, 0⟩

def Devices.zero : Devices := fun _ => ⟨fun _ => Filter.zero, 0⟩

/-- A filter is written. -/
def Device.set (dev : Device) (i : Fin DEMUX_FILTER_COUNT) (filter : Filter) : Device :=
  { dev with filters := Function.update dev.filters i filter }

/-! ## The system -/

/-- The `ioctl`s of a filter's file descriptor. -/
inductive Ioctl where
  | DMX_START
  | DMX_STOP
  | DMX_SET_FILTER
  | DMX_SET_PES_FILTER
  | DMX_SET_BUFFER_SIZE
  deriving DecidableEq, Repr

/-- What the system answers during a call; `open` gives a file descriptor or `-1`, and the
others whether they succeed. -/
structure Sys where
  malloc : Bool
  pthreadCreate : Bool
  openFd : ℤ
  fcntl : Bool
  ioctl : Ioctl → Fin DEMUX_FILTER_COUNT → Bool

/-- `dvb_open`. -/
def dvbOpen (sys : Sys) : ℤ := if sys.malloc then AM_SUCCESS else DEMUX_ERROR_NO_MEM

/-- `dvb_alloc_filter`. -/
def dvbAllocFilter (sys : Sys) (filter : Filter) : ℤ × Filter :=
  if sys.openFd = -1 then (DEMUX_ERROR_CANNOT_OPEN_DEV, filter)
  else (AM_SUCCESS, { filter with drvData := sys.openFd })

/-- `dvb_free_filter`. -/
def dvbFreeFilter : ℤ := AM_SUCCESS

/-- An `ioctl` of the driver. -/
def dvbIoctl (sys : Sys) (request : Ioctl) (i : Fin DEMUX_FILTER_COUNT) : ℤ :=
  if sys.ioctl request i then AM_SUCCESS else DEMUX_ERROR_SYS

/-- `dvb_set_sec_filter`. -/
def dvbSetSecFilter (sys : Sys) (i : Fin DEMUX_FILTER_COUNT) : ℤ := dvbIoctl sys .DMX_SET_FILTER i

/-- `dvb_set_pes_filter`. -/
def dvbSetPesFilter (sys : Sys) (i : Fin DEMUX_FILTER_COUNT) : ℤ :=
  if sys.fcntl then dvbIoctl sys .DMX_SET_PES_FILTER i else DEMUX_ERROR_SYS

/-- `dvb_enable_filter`. -/
def dvbEnableFilter (sys : Sys) (i : Fin DEMUX_FILTER_COUNT) (enable : Bool) : ℤ :=
  dvbIoctl sys (if enable then .DMX_START else .DMX_STOP) i

/-- `dvb_set_buf_size`. -/
def dvbSetBufSize (sys : Sys) (i : Fin DEMUX_FILTER_COUNT) : ℤ :=
  dvbIoctl sys .DMX_SET_BUFFER_SIZE i

/-- `dvb_poll_exit`. -/
def dvbPollExit : ℤ := AM_SUCCESS

/-! ## Static functions -/

/-- `dmx_get_used_filter`: the filter, or the error. -/
def dmxGetUsedFilter (dev : Device) (filterId : ℤ) : Except ℤ (Fin DEMUX_FILTER_COUNT) :=
  if h : 0 ≤ filterId ∧ filterId < DEMUX_FILTER_COUNT then
    let i : Fin DEMUX_FILTER_COUNT := ⟨filterId.toNat, by omega⟩
    if (dev.filters i).used then .ok i else .error DEMUX_ERROR_NOT_ALLOCATED
  else .error DEMUX_ERROR_INVALID_ID

/-- `dmx_stop_filter`. -/
def dmxStopFilter (sys : Sys) (i : Fin DEMUX_FILTER_COUNT) (filter : Filter) : ℤ × Filter :=
  if !filter.used || !filter.enable then (AM_SUCCESS, filter)
  else
    let ret := dvbEnableFilter sys i false
    (ret, if ret ≥ 0 then { filter with enable := false } else filter)

/-- `dmx_free_filter`. -/
def dmxFreeFilter (sys : Sys) (i : Fin DEMUX_FILTER_COUNT) (filter : Filter) : ℤ × Filter :=
  if !filter.used then (AM_SUCCESS, filter)
  else
    let (ret, filter) := dmxStopFilter sys i filter
    let ret := if ret = AM_SUCCESS then dvbFreeFilter else ret
    (ret, if ret = AM_SUCCESS then { filter with used := false } else filter)

/-! ## Calls on a device -/

/-- What a call comes to: a result, with a handle or a callback where it gives one, or a read
through a null pointer. -/
inductive Outcome where
  | returns (ret : ℤ)
  | allocated (fhandle : Fin DEMUX_FILTER_COUNT)
  | callback (cb : Option ℕ) (data : ℕ)
  | segfault
  deriving DecidableEq, Repr

/-- `DemuxAllocateFilter`. -/
def allocateFilter (sys : Sys) (dev : Device) : Outcome × Device :=
  match (List.finRange DEMUX_FILTER_COUNT).find? fun fid => !(dev.filters fid).used with
  | none => (.returns DEMUX_ERROR_NO_FREE_FILTER, dev)
  | some fid =>
    let (ret, filter) := dvbAllocFilter sys { dev.filters fid with id := fid }
    if ret = AM_SUCCESS then (.allocated fid, dev.set fid { filter with used := true })
    else (.returns ret, dev.set fid filter)

/-- `DemuxSetSecFilter` and `DemuxSetPesFilter`: the filter is stopped and then set. -/
def setFilter (set : Fin DEMUX_FILTER_COUNT → ℤ) (sys : Sys) (dev : Device) (fhandle : ℤ) :
    Outcome × Device :=
  match dmxGetUsedFilter dev fhandle with
  | .error ret => (.returns ret, dev)
  | .ok i =>
    let (ret, filter) := dmxStopFilter sys i (dev.filters i)
    (.returns (if ret = AM_SUCCESS then set i else ret), dev.set i filter)

/-- `DemuxSetSecFilter`. -/
def setSecFilter (sys : Sys) : Device → ℤ → Outcome × Device := setFilter (dvbSetSecFilter sys) sys

/-- `DemuxSetPesFilter`. -/
def setPesFilter (sys : Sys) : Device → ℤ → Outcome × Device := setFilter (dvbSetPesFilter sys) sys

/-- `DemuxFreeFilter`. -/
def freeFilter (sys : Sys) (dev : Device) (fhandle : ℤ) : Outcome × Device :=
  match dmxGetUsedFilter dev fhandle with
  | .error ret => (.returns ret, dev)
  | .ok i =>
    let (ret, filter) := dmxFreeFilter sys i (dev.filters i)
    (.returns ret, dev.set i filter)

/-- `DemuxStartFilter`.  The filter is looked at before the result of looking for it. -/
def startFilter (sys : Sys) (dev : Device) (fhandle : ℤ) : Outcome × Device :=
  match dmxGetUsedFilter dev fhandle with
  | .error _ => (.segfault, dev)
  | .ok i =>
    let filter := dev.filters i
    if !filter.enable then
      let ret := dvbEnableFilter sys i true
      if ret = AM_SUCCESS then (.returns dvbPollExit, dev.set i { filter with enable := true })
      else (.returns ret, dev)
    else (.returns AM_SUCCESS, dev)

/-- `DemuxStopFilter`. -/
def stopFilter (sys : Sys) (dev : Device) (fhandle : ℤ) : Outcome × Device :=
  match dmxGetUsedFilter dev fhandle with
  | .error ret => (.returns ret, dev)
  | .ok i =>
    if (dev.filters i).enable then
      let (ret, filter) := dmxStopFilter sys i (dev.filters i)
      (.returns ret, dev.set i filter)
    else (.returns AM_SUCCESS, dev)

/-- `DemuxSetBufferSize`. -/
def setBufferSize (sys : Sys) (dev : Device) (fhandle : ℤ) : Outcome × Device :=
  match dmxGetUsedFilter dev fhandle with
  | .error ret => (.returns ret, dev)
  | .ok i => (.returns (dvbSetBufSize sys i), dev)

/-- `DemuxGetCallback`. -/
def getCallback (dev : Device) (fhandle : ℤ) : Outcome × Device :=
  match dmxGetUsedFilter dev fhandle with
  | .error ret => (.returns ret, dev)
  | .ok i => (.callback (dev.filters i).cb (dev.filters i).userData, dev)

/-- `DemuxSetCallback`. -/
def setCallback (dev : Device) (fhandle : ℤ) (cb : Option ℕ) (data : ℕ) : Outcome × Device :=
  match dmxGetUsedFilter dev fhandle with
  | .error ret => (.returns ret, dev)
  | .ok i => (.returns AM_SUCCESS, dev.set i { dev.filters i with cb := cb, userData := data })

/-- `DemuxOpen`. -/
def openDevice (sys : Sys) (dev : Device) : Outcome × Device :=
  if dev.openCount > 0 then (.returns AM_SUCCESS, { dev with openCount := dev.openCount + 1 })
  else
    let ret := dvbOpen sys
    let ret :=
      if ret = AM_SUCCESS ∧ !sys.pthreadCreate then DEMUX_ERROR_CANNOT_CREATE_THREAD else ret
    (.returns ret, if ret = AM_SUCCESS then { dev with openCount := 1 } else dev)

/-- `DemuxClose`, the data thread having ended. -/
def closeDevice (sys : Sys) (dev : Device) : Outcome × Device :=
  let filters := if dev.openCount = 1 then fun i => (dmxFreeFilter sys i (dev.filters i)).2
    else dev.filters
  (.returns AM_SUCCESS, { filters := filters, openCount := dev.openCount - 1 })

/-! ## Calls -/

/-- The calls on the filters of a device. -/
inductive FilterCall where
  | allocateFilter
  | setSecFilter (fhandle : ℤ)
  | setPesFilter (fhandle : ℤ)
  | freeFilter (fhandle : ℤ)
  | startFilter (fhandle : ℤ)
  | stopFilter (fhandle : ℤ)
  | setBufferSize (fhandle : ℤ)
  | getCallback (fhandle : ℤ)
  | setCallback (fhandle : ℤ) (cb : Option ℕ) (data : ℕ)
  deriving DecidableEq, Repr

/-- The calls. -/
inductive Call where
  | open (devNo : ℤ)
  | close (devNo : ℤ)
  | filter (devNo : ℤ) (call : FilterCall)
  deriving DecidableEq, Repr

/-- A call on the filters of a device that is open. -/
def execFilter (sys : Sys) (dev : Device) : FilterCall → Outcome × Device
  | .allocateFilter => allocateFilter sys dev
  | .setSecFilter fhandle => setSecFilter sys dev fhandle
  | .setPesFilter fhandle => setPesFilter sys dev fhandle
  | .freeFilter fhandle => freeFilter sys dev fhandle
  | .startFilter fhandle => startFilter sys dev fhandle
  | .stopFilter fhandle => stopFilter sys dev fhandle
  | .setBufferSize fhandle => setBufferSize sys dev fhandle
  | .getCallback fhandle => getCallback dev fhandle
  | .setCallback fhandle cb data => setCallback dev fhandle cb data

/-- `dmx_get_dev`. -/
def dmxGetDev (devNo : ℤ) : Option (Fin DMX_DEV_COUNT) :=
  if h : 0 ≤ devNo ∧ devNo < DMX_DEV_COUNT then some ⟨devNo.toNat, by omega⟩ else none

/-- `dmx_get_opened_dev`. -/
def dmxGetOpenedDev (devs : Devices) (devNo : ℤ) : Option (Fin DMX_DEV_COUNT) :=
  match dmxGetDev devNo with
  | none => none
  | some d => if (devs d).openCount = 0 then none else some d

/-- A call on a device that must be open. -/
def onOpened (devs : Devices) (devNo : ℤ) (call : Device → Outcome × Device) : Outcome × Devices :=
  match dmxGetOpenedDev devs devNo with
  | none => (.returns DEMUX_ERROR_INVALID_DEV_NO, devs)
  | some d => ((call (devs d)).1, Function.update devs d (call (devs d)).2)

/-- A call. -/
def exec (sys : Sys) (devs : Devices) : Call → Outcome × Devices
  | .open devNo =>
    match dmxGetDev devNo with
    | none => (.returns DEMUX_ERROR_INVALID_DEV_NO, devs)
    | some d =>
      ((openDevice sys (devs d)).1, Function.update devs d (openDevice sys (devs d)).2)
  | .close devNo => onOpened devs devNo (closeDevice sys)
  | .filter devNo call => onOpened devs devNo fun dev => execFilter sys dev call

/-- The process takes a call, with what the system answers during it; after a read through a
null pointer it is gone. -/
def step (s : Option Devices) (e : Call × Sys) : Option Devices :=
  s.bind fun devs =>
    match exec e.2 devs e.1 with
    | (.segfault, _) => none
    | (_, devs) => some devs

end DemuxDriver
end AmlSubtitle
