import MariaDB.Lib.BigEndian
import MariaDB.Lib.Radix
import MariaDB.Decimal.Basic
import MariaDB.Decimal.Bin
import MariaDB.Decimal.Cmp
import MariaDB.Decimal.Format
import MariaDB.Decimal.Write
import MariaDB.Decimal.Read
import MariaDB.Decimal.Storage
import MariaDB.Lib.Buffer
import MariaDB.Redo.Varint
import MariaDB.Redo.LogWrite
import MariaDB.Redo.Apply
import MariaDB.Redo.Mtr
import MariaDB.Redo.Replay
import MariaDB.Lib.Blocks
import MariaDB.Lib.CArith
import MariaDB.Time.Calendar
import MariaDB.Time.Basic
import MariaDB.Time.Packed
import MariaDB.Time.Datetime
import MariaDB.Base64.Encode
import MariaDB.Base64.Decode
import MariaDB.Base64.RoundTrip
import MariaDB.Uuid.Parse
import MariaDB.Uuid.Record
import MariaDB.Time.TextParse
import MariaDB.Time.TextPrint
import MariaDB.Time.TextRoundTrip
import MariaDB.Decimal.Round
import MariaDB.Dyncol.Read
import MariaDB.Lib.BinaryHeap
import MariaDB.Queues.Model
import MariaDB.Queues.Invariant
import MariaDB.Queues.Run
import MariaDB.Ctype.Utf
import MariaDB.Json.Scan
import MariaDB.Decimal.Add
import MariaDB.Decimal.Sub
import MariaDB.Redo.Pattern
import MariaDB.Decimal.Integer
import MariaDB.Time.PackTime
import MariaDB.Time.Interval
import MariaDB.Time.Week
import MariaDB.Ctype.Utf8mb4
import MariaDB.Mach.Compressed
import MariaDB.Base64.Accept
import MariaDB.Uuid.Cmp
import MariaDB.Lib.WordBits
import MariaDB.Mysys.Bitmap
import MariaDB.Strings.Strtoll10
import MariaDB.Lib.SearchTree
import MariaDB.Mysys.Tree
import MariaDB.Lib.Bytewise
import MariaDB.Mysys.MyBit
import MariaDB.Mysys.BitmapScan
import MariaDB.Mysys.BitmapWrite
import MariaDB.Lib.Machine
import MariaDB.Mysys.BitmapRun
