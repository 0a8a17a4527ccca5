import StarLib.Foundations.Words
import StarLib.Foundations.Loop
import StarLib.Foundations.Columns
import StarLib.Foundations.KeyAlternating
import StarLib.Foundations.ChainModes
import StarLib.Foundations.Arrays
import StarLib.Foundations.Crc
import StarLib.Foundations.Feistel
import StarLib.Foundations.Shuffle
import StarLib.Foundations.Ascii
import StarLib.Foundations.Packed
import StarLib.Foundations.XorLinear
import StarLib.Foundations.BitArrays
import StarLib.Foundations.Raster
import StarLib.Foundations.Pictures
import StarLib.Foundations.Spans
import StarLib.Foundations.Substitution
import StarLib.Foundations.Buffers
import StarLib.Foundations.Segments
import StarLib.Foundations.Numerals
import StarLib.Foundations.Transitions
import StarLib.Foundations.Custody
import StarLib.LicenseLib.Thread
import StarLib.LicenseLib.ThreadRuns
import StarLib.Rijndael.Tables
import StarLib.Rijndael.Cipher
import StarLib.Rijndael.TableFacts
import StarLib.Rijndael.MakeKey
import StarLib.Rijndael.KeySchedule
import StarLib.Rijndael.Block
import StarLib.Rijndael.Modes
import StarLib.Aes.Tables
import StarLib.Aes.Cipher
import StarLib.Aes.Refinement
import StarLib.Aes.KeySchedule
import StarLib.Agreement
import StarLib.Compression
import StarLib.LicenseLib.LuaCode
import StarLib.LicenseLib.Des
import StarLib.LicenseLib.Rc4
import StarLib.LicenseLib.Md5
import StarLib.LicenseLib.Register
import StarLib.LicenseLib.Checker
import StarLib.SerialManager.Tables
import StarLib.SerialManager.Des
import StarLib.SerialManager.DesRounds
import StarLib.SerialManager.Rc5
import StarLib.SerialManager.Seal
import StarLib.SerialManager.SealRuns
import StarLib.SerialManager.FinalData
import StarLib.SerialManager.Serial
import StarLib.SerialManager.Manager
import StarLib.Des.Tables
import StarLib.Des.Cipher
import StarLib.Des.Block
import StarLib.Des.Restore
import StarLib.DesAgreement
import StarLib.ImageProcessors.Pixels
import StarLib.ImageProcessors.Fill
import StarLib.ImageProcessors.Processors
import StarLib.ImageProcessors.EnBitmap
import StarLib.ImageProcessors.Update
import StarLib.ImageProcessors.Shrink
import StarLib.ImageProcessors.Flip
import StarLib.ImageProcessors.Blur
import StarLib.Regkey.Handles
import StarLib.Regkey.IniText
import StarLib.Regkey.IniFile
import StarLib.Regkey.RoundTrip
import StarLib.Regkey.RegistryTree
import StarLib.Ini.Profile
import StarLib.Ini.DataBlock
import StarLib.Ini.DataBlockRuns
import StarLib.Ini.Split
import StarLib.Ini.Trim
import StarLib.Ini.StringArray
import StarLib.Ini.SplitBounds
import StarLib.ChineseCodeLib.Convert
import StarLib.ChineseCodeLib.Bounds
import StarLib.Foundations.Layouts
import StarLib.Rc6.Cipher
import StarLib.Rc6.Restore
import StarLib.Tea
import StarLib.Blowfish.Tables
import StarLib.Blowfish.Cipher
import StarLib.Blowfish.Restore
import StarLib.Foundations.Percent
import StarLib.URLEncode
import StarLib.FileMisc.Folders
import StarLib.FileMisc.Delete
import StarLib.FileMisc.Move
import StarLib.DateHelper
import StarLib.DateHelper.Calendar
import StarLib.DateHelper.GetDate
import StarLib.TimeHelper
import StarLib.Foundations.Keyed
import StarLib.Ini.Sections
import StarLib.Ini.Growing
import StarLib.Ini.CopyMove
import StarLib.Ini.KeyNames
import StarLib.Ini.GetString
import StarLib.Ini.Integers
import StarLib.Foundations.Euclid
import StarLib.Idea.Multiply
import StarLib.Idea.Cipher
import StarLib.Idea.Restore
import StarLib.Idea.Buffers
import StarLib.Des.Mirror
import StarLib.Des.Standard
import StarLib.Foundations.Rounding
import StarLib.Foundations.Runs
import StarLib.Foundations.LinkedLists
import StarLib.FileMisc.Report
import StarLib.FileMisc.Sizes
import StarLib.FileMisc.Validate
import StarLib.Hook.APIHook
import StarLib.Hook.APIHookNew
import StarLib.Hook.APIHookRuns
import StarLib.Hook.HookClass
import StarLib.RegSoftDlg
import StarLib.LicenseLib.Regions
import StarLib.LicenseLib.HexText
import StarLib.Foundations.Absorbing
import StarLib.LicenseLib.Md5Padding
import StarLib.SerialManager.Rc5Key
import StarLib.SerialManager.DesRestore
import StarLib.Aes.HexText
import StarLib.Foundations.Accesses
import StarLib.Rc6.Bounds
import StarLib.Foundations.Sha
import StarLib.SerialManager.SealHash
import StarLib.FileMisc.Backup
import StarLib.FileMisc.Shares
import StarLib.FileMisc.DeleteDirectory
import StarLib.DiskId
import StarLib.FileMisc.Enumeration
import StarLib.Foundations.Fuel
import StarLib.Regkey.Deletion
import StarLib.Regkey.KeyExists
import StarLib.Md5.Transform
import StarLib.Md5.Digest
import StarLib.Md5.Agreement
import StarLib.ImageProcessors.Points
import StarLib.ImageProcessors.Pipeline
import StarLib.Foundations.ChainedBuffers
import StarLib.LicenseLib.DesChaining
import StarLib.Ini.TypedStore
import StarLib.Foundations.Records
import StarLib.Zip.Cipher
import StarLib.Zip.Writer
import StarLib.Zip.Layout
import StarLib.Zip.Adding
import StarLib.Zip.Reader
import StarLib.Zip.Opening
import StarLib.Zip.TUnzip
import StarLib.Zip.Contents
import StarLib.Zip.Entries
import StarLib.Zip.Made
import StarLib.Foundations.Sessions
import StarLib.Zip.Session
import StarLib.Zip.Archive
import StarLib.Zip.Names
import StarLib.Zip.Missing
import StarLib.Zip.Passwords
import StarLib.Zip.Overrun
