import DataReceiveRelay.Words
import DataReceiveRelay.Runs
import DataReceiveRelay.Registers
import DataReceiveRelay.DataFrame
import DataReceiveRelay.Receive
import DataReceiveRelay.Decimal
import DataReceiveRelay.DeviceIdFile
import DataReceiveRelay.IdSave
import DataReceiveRelay.Overtime
import DataReceiveRelay.Records
import DataReceiveRelay.Json
import DataReceiveRelay.Config
import DataReceiveRelay.SaveConfig
import DataReceiveRelay.SlaveAddress
import DataReceiveRelay.EntryNames
import DataReceiveRelay.NodeTimeout
import DataReceiveRelay.BurstErrors
import DataReceiveRelay.Iteration
import DataReceiveRelay.Nodes
import DataReceiveRelay.Registration
import DataReceiveRelay.ResetRequest
import DataReceiveRelay.CutFile
import DataReceiveRelay.AnyFile
import DataReceiveRelay.FatFs
import DataReceiveRelay.SaveStatus
import DataReceiveRelay.ConfigLoad
import DataReceiveRelay.NodeDataReads
import DataReceiveRelay.Readings
import DataReceiveRelay.FileEnd
import DataReceiveRelay.DecimalConversion
import DataReceiveRelay.LaunchCounter
import DataReceiveRelay.NamePrinting
import DataReceiveRelay.ModbusCrc
import DataReceiveRelay.Blocks
import DataReceiveRelay.ModbusFunctions
import DataReceiveRelay.ModbusService
import DataReceiveRelay.ModbusRtu
import DataReceiveRelay.ModbusFrame
import DataReceiveRelay.ModbusSession
import DataReceiveRelay.ModbusProgress
import DataReceiveRelay.ModbusCoils
import DataReceiveRelay.JsonTrees
import DataReceiveRelay.RelayModel
import DataReceiveRelay.InterruptedReads
import DataReceiveRelay.ParseAccess
